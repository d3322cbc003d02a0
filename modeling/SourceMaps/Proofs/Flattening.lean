import Mathlib
import SourceMaps.Proofs.Index.Built
import SourceMaps.Proofs.SegmentLines

/-!
# Flattening built indexes

An index that was built has all its sources registered, so unless it reaches before the first
generated line it flattens into lines that hold each mapping once: its segment stands on its line
and refers to the first position of its source and of its name. A forward index that reaches before
the first line cannot be flattened, since the mapping it starts with has no line to count back from.

## Main definitions

* `Index.Built`: indexes of either direction that declaring, registering and adding lead to.
* `Segment.Places`: the segments that a mapping may have.

## Main statements

* `lineCount_eq_max`: the lines reach to the last generated line.
* `ForwardIndex.segmentLines_of_negative`: forward indexes that cannot be flattened.
* `Index.segmentLines_exact`: what flattening answers.
-/

namespace SourceMaps

/-- The indexes of either direction that are built by declaring and registering sources and by
adding mappings. -/
def Index.Built : Index → Prop
  | .forward index => index.Built
  | .reverse index => index.Built

theorem Index.Built.registered {index : Index} (h : index.Built) :
    ∀ m ∈ index.mappings, m.source ∈ index.registry.sources := by
  cases index with
  | forward index => exact (ForwardIndex.Built.coherent h).registered
  | reverse index => exact index.registered_mappings

/-! ### Lines -/

/-- As many lines are reached as the greatest generated line asks for. -/
theorem lineCount_eq_max {mappings : List Mapping} (h : ∀ m ∈ mappings, 0 ≤ m.generatedLine) :
    (lineCount mappings : Int) =
      ((mappings.map (·.generatedLine)).max?.map (· + 1)).getD 0 := by
  cases hmax : (mappings.map (·.generatedLine)).max? with
  | none =>
    obtain rfl : mappings = [] := by simpa using hmax
    rfl
  | some greatest =>
    -- The mapping on the greatest line is reached, and no other one asks for more lines.
    obtain ⟨hmem, hgreatest⟩ := List.max?_eq_some_iff.mp hmax
    obtain ⟨last, hlast, rfl⟩ := List.mem_map.mp hmem
    have hnonneg := h last hlast
    have hreached := lt_lineCount hlast
    have hbound : lineCount mappings ≤ last.generatedLine.toNat + 1 := by
      apply lineCount_le
      intro m hm
      have hle := hgreatest m.generatedLine (List.mem_map_of_mem hm)
      omega
    show (lineCount mappings : Int) = last.generatedLine + 1
    omega

/-! ### Segments -/

/-- A segment of a mapping of an index: it has the column of the mapping, the slot of its source and
its original position and, if the mapping has a name, the position of that in a table. -/
inductive Segment.Places (index : Index) (table : NameTable) (m : Mapping) : Segment → Prop where
  | sourced {slot : Nat} (hname : m.name = none) (hslot : index.slotOf m.source = .ok slot) :
      Places index table m (.sourced m.generatedColumn slot m.line m.column)
  | named {slot position : Nat} {name : Text} (hname : m.name = some name)
      (hslot : index.slotOf m.source = .ok slot)
      (hposition : table.items.idxOf? name = some position) :
      Places index table m (.named m.generatedColumn slot m.line m.column position)

theorem Mapping.segmentIn_places {index : Index} {table : NameTable} {m : Mapping}
    (hsource : m.source ∈ index.registry.sources)
    (hname : ∀ name, m.name = some name → name ∈ table.items) :
    (m.segmentIn index.registry table).Places index table m := by
  have hslot := Index.slotOf_eq hsource
  unfold Mapping.segmentIn
  split
  · next hnone => exact .sourced hnone hslot
  · next name hsome => exact .named hsome hslot (idxOf?_of_mem (hname name hsome))

/-! ### Negative lines -/

/-- If the first mapping is on a negative line, there is no line yet to count back from. -/
theorem collectSegments_of_negative {slotOf : Text → Except Fault Nat} {table : NameTable}
    {first : Mapping} {rest : List Mapping} {slot : Nat} (hslot : slotOf first.source = .ok slot)
    (hline : first.generatedLine < 0) :
    collectSegments slotOf [] table (first :: rest) = .error .lineOutOfRange := by
  have hplace (segment : Segment) :
      placeSegment [] first.generatedLine segment = .error .lineOutOfRange := by
    have hposition : (([] : List (List Segment)).length : Int) + first.generatedLine < 0 := by
      simpa using hline
    simp only [placeSegment, if_pos hline, if_pos hposition]
  rw [collectSegments, hslot, ok_bind]
  generalize first.segment slot table = placed
  obtain ⟨segment, noted⟩ := placed
  show (placeSegment [] first.generatedLine segment >>= _) = _
  rw [hplace]
  rfl

/-- A forward index starts with its least generated line, so it cannot be flattened if any of its
lines is negative. -/
theorem ForwardIndex.segmentLines_of_negative {index : ForwardIndex} (h : index.Built)
    (hnegative : ∃ m ∈ index.mappings, m.generatedLine < 0) (table : NameTable) :
    (Index.forward index).segmentLines table = .error .lineOutOfRange := by
  obtain ⟨m, hm, hline⟩ := hnegative
  have hregistered := h.coherent.registered
  have hascending := index.ascending_mappings
  have hcollect : collectSegments (Index.forward index).slotOf [] table index.mappings =
      .error .lineOutOfRange := by
    cases hmappings : index.mappings with
    | nil =>
      rw [hmappings] at hm
      cases hm
    | cons first rest =>
      rw [hmappings] at hm hregistered hascending
      have hfirst : first.generatedLine < 0 := by
        rcases Grid.place_le_iff.mp (hascending.head_le hm) with hlt | ⟨heq, -⟩
        · omega
        · omega
      exact collectSegments_of_negative
        (Index.slotOf_eq (hregistered first List.mem_cons_self)) hfirst
  show (collectSegments (Index.forward index).slotOf [] table index.mappings >>= _) = _
  rw [hcollect]
  rfl

/-! ### What flattening answers -/

/-- A built index without negative generated lines flattens into one line more than its greatest
generated line, or into none if it is empty. Each line holds the segments of its mappings, taken in
the order of the index and sorted stably by column, and the table keeps its names and gets those
that are new to it in the order in which they come. A built forward index with a negative generated
line does not flatten at all. -/
theorem Index.segmentLines_exact :
    (∀ index : Index, index.Built → (∀ m ∈ index.mappings, 0 ≤ m.generatedLine) →
      ∀ table : NameTable, ∃ found final, index.segmentLines table = .ok (found, final) ∧
        (found.length : Int) =
          ((index.mappings.map (·.generatedLine)).max?.map (· + 1)).getD 0 ∧
        (∀ (line : Nat) segments, found[line]? = some segments →
          List.Forall₂ (Segment.Places index final)
            (sortOn Mapping.generatedColumn
              (index.mappings.filter (·.generatedLine = (line : Int)))) segments) ∧
        final.items = withNew table.items (index.mappings.filterMap (·.name))) ∧
    ∀ index : ForwardIndex, index.Built → (∃ m ∈ index.mappings, m.generatedLine < 0) →
      ∀ table : NameTable,
        (Index.forward index).segmentLines table = .error .lineOutOfRange := by
  refine ⟨fun index built lines table => ?_, fun index built hnegative table =>
    index.segmentLines_of_negative built hnegative table⟩
  have hregistered := built.registered
  refine ⟨_, _, Index.segmentLines_eq table hregistered lines, ?_,
    fun line segments hline => ?_, ?_⟩
  · rw [List.length_map, List.length_range, lineCount_eq_max lines]
  · rw [List.getElem?_map, Option.map_eq_some_iff] at hline
    obtain ⟨_, hrange, rfl⟩ := hline
    obtain ⟨_, rfl⟩ := List.getElem?_eq_some_iff.mp hrange
    rw [List.getElem_range, List.forall₂_map_right_iff]
    refine List.forall₂_same.mpr fun m hm => ?_
    have hm : m ∈ index.mappings := (mem_onLine.mp (mem_sortOn.mp hm)).1
    refine Mapping.segmentIn_places (hregistered m hm) fun name hname => ?_
    exact table.mem_noteAll (hname ▸ List.mem_map_of_mem hm)
  · rw [NameTable.items_noteAll, List.filterMap_map]
    rfl

/-- Two sources whose mappings are on the lines 2 and 0, in an order that is not that of the lines,
with a name that the table has and one that is met twice. -/
def scattered : List Mapping :=
  [⟨2, 4, "a", 0, 0, some "x"⟩, ⟨0, 1, "b", 1, 0, some "k"⟩, ⟨2, 0, "a", 3, 1, none⟩,
    ⟨2, 4, "b", 0, 2, some "x"⟩]

theorem Index.segmentLines_exact_scattered :
    (∃ found final,
      (Index.reverse (.ofMappings ["b"] scattered)).segmentLines ⟨["n", "k"]⟩ =
        .ok (found, final) ∧ found.length = 3 ∧ final.items = ["n", "k", "x"]) ∧
    (Index.forward (.ofMappings [] (⟨-1, 0, "a", 0, 0, none⟩ :: scattered))).segmentLines ⟨[]⟩ =
      .error .lineOutOfRange := by
  obtain ⟨hflattened, hnegative⟩ := segmentLines_exact
  have lines : ∀ m ∈ (ReverseIndex.ofMappings ["b"] scattered).mappings, 0 ≤ m.generatedLine := by
    decide
  constructor
  · obtain ⟨found, final, hfound, hlength, -, hitems⟩ :=
      hflattened (.reverse _) (ReverseIndex.built_ofMappings ["b"] scattered) lines ⟨["n", "k"]⟩
    have hthree : (found.length : Int) = 3 := hlength.trans (by cbv)
    exact ⟨found, final, hfound, by omega, hitems.trans (by cbv)⟩
  · exact hnegative _ (ForwardIndex.built_ofMappings [] _) (by decide) ⟨[]⟩

example :
    (Index.reverse (.ofMappings ["b"] scattered)).segmentLines ⟨["n", "k"]⟩ =
      .ok ([[.named 1 0 1 0 1], [], [.sourced 0 1 3 1, .named 4 0 0 2 2, .named 4 1 0 0 2]],
        ⟨["n", "k", "x"]⟩) := by
  cbv

end SourceMaps
