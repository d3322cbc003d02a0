import Mathlib
import SourceMaps.Proofs.Flattening
import SourceMaps.Proofs.Index.Runs
import SourceMaps.Proofs.Invert
import SourceMaps.Proofs.MappingsText
import SourceMaps.Proofs.Merge
import SourceMaps.Proofs.Reencode

/-!
# Positions that always encode

Only differences have a spelling, and only those of 32 bits. If all fields of all segments are
natural numbers below `2 ^ 31`, every slot of the cursor stays there too, so any two of them differ
by 32 bits: such segments can be written in whatever order they come. The segments of an index have
such fields if its positions do and if it has no more sources and names than there are such numbers.

## Main definitions

* `IsSlot`: the natural numbers below `2 ^ 31`.
* `Segment.Bounded`, `Cursor.Bounded`, `Mapping.Bounded`, `Index.Bounded`: all fields are such numbers.

## Main statements

* `Cursor.Bounded.delta`: one step keeps the slots bounded, and its differences have 32 bits.
* `MappingsText.exists_write`: bounded segments can be written in any order.
* `Index.encode_bounded`: bounded indexes are encoded, and so are what they invert and merge to.
-/

namespace SourceMaps

/-- The natural numbers below `2 ^ 31`. -/
def IsSlot (value : Int) : Prop := 0 ≤ value ∧ value ≤ 2 ^ 31 - 1

instance (value : Int) : Decidable (IsSlot value) := inferInstanceAs (Decidable (_ ∧ _))

theorem isSlot_zero : IsSlot 0 := ⟨le_refl 0, by norm_num⟩

theorem isSlot_of_lt {n count : Nat} (h : n < count) (hcount : count ≤ 2 ^ 31) : IsSlot n := by
  unfold IsSlot
  omega

/-- Two such numbers differ by 32 bits. -/
theorem IsSlot.inRange_sub {a b : Int} (ha : IsSlot a) (hb : IsSlot b) : Vlq.InRange (a - b) := by
  unfold IsSlot at ha hb
  rw [Vlq.inRange_iff]
  omega

/-! ### Segments and cursors -/

/-- All fields of the segment are natural numbers below `2 ^ 31`. -/
def Segment.Bounded (segment : Segment) : Prop := ∀ field ∈ segment.fields, IsSlot field

/-- All slots of the cursor are natural numbers below `2 ^ 31`. -/
structure Cursor.Bounded (c : Cursor) : Prop where
  column : IsSlot c.column
  source : IsSlot c.source
  line : IsSlot c.line
  originalColumn : IsSlot c.originalColumn
  name : IsSlot c.name

namespace Cursor

variable {c : Cursor}

theorem bounded_start : ({} : Cursor).Bounded :=
  ⟨isSlot_zero, isSlot_zero, isSlot_zero, isSlot_zero, isSlot_zero⟩

theorem Bounded.nextLine (h : c.Bounded) : c.nextLine.Bounded := { h with column := isSlot_zero }

/-- Moving to a bounded segment keeps the slots bounded, and the differences have 32 bits. -/
theorem Bounded.delta (h : c.Bounded) {segment : Segment} (hsegment : segment.Bounded) :
    (c.delta segment).1.Bounded ∧ ∀ d ∈ (c.delta segment).2.fields, Vlq.InRange d := by
  cases segment with
  | bare column =>
    have hcolumn : IsSlot column := hsegment column (by simp [Segment.fields])
    refine ⟨{ h with column := hcolumn }, ?_⟩
    intro d hd
    obtain rfl := List.mem_singleton.mp hd
    exact hcolumn.inRange_sub h.column
  | sourced column source line originalColumn =>
    simp only [Segment.Bounded, Segment.fields, List.forall_mem_cons] at hsegment
    obtain ⟨hcolumn, hsource, hline, horiginal, -⟩ := hsegment
    refine ⟨⟨hcolumn, hsource, hline, horiginal, h.name⟩, ?_⟩
    simp only [Cursor.delta, Segment.fields, List.forall_mem_cons]
    exact ⟨hcolumn.inRange_sub h.column, hsource.inRange_sub h.source, hline.inRange_sub h.line,
      horiginal.inRange_sub h.originalColumn, List.forall_mem_nil _⟩
  | named column source line originalColumn name =>
    simp only [Segment.Bounded, Segment.fields, List.forall_mem_cons] at hsegment
    obtain ⟨hcolumn, hsource, hline, horiginal, hname, -⟩ := hsegment
    refine ⟨⟨hcolumn, hsource, hline, horiginal, hname⟩, ?_⟩
    simp only [Cursor.delta, Segment.fields, List.forall_mem_cons]
    exact ⟨hcolumn.inRange_sub h.column, hsource.inRange_sub h.source, hline.inRange_sub h.line,
      horiginal.inRange_sub h.originalColumn, hname.inRange_sub h.name, List.forall_mem_nil _⟩

end Cursor

/-! ### Mappings texts -/

namespace MappingsText

theorem exists_writeSegments {c : Cursor} (hc : c.Bounded) {segments : List Segment}
    (h : ∀ segment ∈ segments, segment.Bounded) :
    ∃ pieces after, writeSegments c segments = .ok (pieces, after) ∧ after.Bounded := by
  induction segments generalizing c with
  | nil => exact ⟨[], c, rfl, hc⟩
  | cons segment rest ih =>
    obtain ⟨hsegment, hrest⟩ := List.forall_mem_cons.mp h
    obtain ⟨hnext, hrange⟩ := hc.delta hsegment
    obtain ⟨pieces, after, hpieces, hafter⟩ := ih hnext hrest
    rcases Vlq.encode_cases (c.delta segment).2.fields with
      ⟨-, piece, hpiece⟩ | ⟨d, hd, hwide, -⟩
    · exact ⟨piece :: pieces, after,
        writeSegments_cons_iff.mpr ⟨piece, pieces, hpiece, hpieces, rfl⟩, hafter⟩
    · exact absurd (hrange d hd) hwide

theorem exists_writeLines {c : Cursor} (hc : c.Bounded) {lines : List (List Segment)}
    (h : ∀ line ∈ lines, ∀ segment ∈ line, segment.Bounded) :
    ∃ texts, writeLines c lines = .ok texts := by
  induction lines generalizing c with
  | nil => exact ⟨[], rfl⟩
  | cons line rest ih =>
    obtain ⟨hline, hrest⟩ := List.forall_mem_cons.mp h
    obtain ⟨pieces, after, hpieces, hafter⟩ := exists_writeSegments hc.nextLine hline
    obtain ⟨texts, htexts⟩ := ih hafter hrest
    exact ⟨_, writeLines_cons_iff.mpr ⟨pieces, after, texts, hpieces, htexts, rfl⟩⟩

/-- Lines of bounded segments can be written, in whatever order the segments are. -/
theorem exists_write {lines : List (List Segment)}
    (h : ∀ line ∈ lines, ∀ segment ∈ line, segment.Bounded) :
    ∃ text, write lines = .ok text := by
  obtain ⟨texts, htexts⟩ := exists_writeLines Cursor.bounded_start h
  refine ⟨Text.join ";" texts, ?_⟩
  rw [write, htexts]
  rfl

end MappingsText

/-! ### Names -/

namespace NameTable

theorem nodup_note {table : NameTable} (h : table.items.Nodup) (asked : Option Text) :
    (table.note asked).items.Nodup := by
  cases asked with
  | none => exact h
  | some name =>
    by_cases hname : name ∈ table.items
    · rw [note, intern_of_mem hname]
      exact h
    · rw [note, intern_of_notMem hname]
      exact List.nodup_append.mpr ⟨h, List.nodup_singleton name, by
        rintro a ha b hb rfl
        exact hname (List.mem_singleton.mp hb ▸ ha)⟩

theorem nodup_noteAll {table : NameTable} (h : table.items.Nodup) (names : List (Option Text)) :
    (table.noteAll names).items.Nodup := by
  induction names generalizing table with
  | nil => exact h
  | cons asked names ih => exact ih (nodup_note h asked)

/-- A table holds no more names than mappings have asked for. -/
theorem length_noteAll_le (mappings : List Mapping) :
    (noteAll {} (mappings.map (·.name))).items.length ≤
      (mappings.filterMap (·.name)).toFinset.card := by
  rw [← List.toFinset_card_of_nodup (nodup_noteAll List.nodup_nil _)]
  apply Finset.card_le_card
  intro name hname
  rcases mem_of_mem_noteAll (List.mem_toFinset.mp hname) with hname | hname
  · cases hname
  · obtain ⟨m, hm, hmname⟩ := List.mem_map.mp hname
    exact List.mem_toFinset.mpr (List.mem_filterMap.mpr ⟨m, hm, hmname⟩)

end NameTable

/-! ### Indexes -/

/-- The mapping is not before the first generated line, and its other positions are natural numbers
below `2 ^ 31`. -/
structure Mapping.Bounded (m : Mapping) : Prop where
  generatedLine : 0 ≤ m.generatedLine
  generatedColumn : IsSlot m.generatedColumn
  line : IsSlot m.line
  column : IsSlot m.column

instance (m : Mapping) : Decidable m.Bounded :=
  decidable_of_iff (0 ≤ m.generatedLine ∧ IsSlot m.generatedColumn ∧ IsSlot m.line ∧
    IsSlot m.column) ⟨fun ⟨h₁, h₂, h₃, h₄⟩ => ⟨h₁, h₂, h₃, h₄⟩, fun ⟨h₁, h₂, h₃, h₄⟩ => ⟨h₁, h₂, h₃, h₄⟩⟩

/-- The names of the mappings of an index. -/
def Index.names (index : Index) : Finset Text := (index.mappings.filterMap (·.name)).toFinset

/-- All mappings are bounded, and there are at most `2 ^ 31` sources and as many names. -/
structure Index.Bounded (index : Index) : Prop where
  mappings : ∀ m ∈ index.mappings, m.Bounded
  sources : index.sources.length ≤ 2 ^ 31
  names : index.names.card ≤ 2 ^ 31

namespace Index

variable {index : Index}

theorem mem_names {name : Text} : name ∈ index.names ↔ ∃ m ∈ index.mappings, m.name = some name := by
  rw [names, List.mem_toFinset, List.mem_filterMap]

/-- An index with the mappings and the sources of a bounded one is bounded. -/
theorem Bounded.of_mem_iff {other : Index} (h : index.Bounded)
    (hmappings : ∀ m, m ∈ other.mappings ↔ m ∈ index.mappings)
    (hsources : other.sources = index.sources) : other.Bounded where
  mappings m hm := h.mappings m ((hmappings m).mp hm)
  sources := hsources ▸ h.sources
  names := by
    have hnames : other.names = index.names := by
      ext name
      simp only [mem_names, hmappings]
    rw [hnames]
    exact h.names

theorem Bounded.segment (h : index.Bounded) {table : NameTable}
    (htable : table.items.length ≤ 2 ^ 31) {segment : Segment} {m : Mapping}
    (hm : m ∈ index.mappings) (hplaces : segment.Places index table m) : segment.Bounded := by
  obtain ⟨-, hcolumn, hline, horiginal⟩ := h.mappings m hm
  have hslot : ∀ {slot : Nat}, index.slotOf m.source = .ok slot → IsSlot slot := by
    intro slot hslot
    obtain ⟨hfirst, -⟩ := Registry.slot?_eq_some_iff.mp (slotOf_eq_ok_iff.mp hslot)
    obtain ⟨hlt, -⟩ := List.getElem?_eq_some_iff.mp hfirst
    exact isSlot_of_lt hlt h.sources
  cases hplaces with
  | sourced _ hsource =>
    simp only [Segment.Bounded, Segment.fields, List.forall_mem_cons]
    exact ⟨hcolumn, hslot hsource, hline, horiginal, List.forall_mem_nil _⟩
  | named _ hsource hposition =>
    have hname := (List.idxOf?_eq_some_iff.mp hposition).1
    simp only [Segment.Bounded, Segment.fields, List.forall_mem_cons]
    exact ⟨hcolumn, hslot hsource, hline, horiginal, isSlot_of_lt hname htable,
      List.forall_mem_nil _⟩

/-- The mappings of a bounded index flatten into segments that can be written in any order. -/
theorem Bounded.segmentLines (h : index.Bounded)
    (registered : ∀ m ∈ index.mappings, m.source ∈ index.registry.sources) :
    ∃ lines table, index.segmentLines {} = .ok (lines, table) ∧
      (∀ line ∈ lines, ∀ segment ∈ line, ∃ m ∈ index.mappings, segment.Places index table m) ∧
      ∀ reordered : List (List Segment),
        (∀ line ∈ reordered, ∀ segment ∈ line,
          ∃ m ∈ index.mappings, segment.Places index table m) →
        ∃ text, MappingsText.write reordered = .ok text := by
  have hlines : ∀ m ∈ index.mappings, 0 ≤ m.generatedLine :=
    fun m hm => (h.mappings m hm).generatedLine
  refine ⟨_, _, segmentLines_eq {} registered hlines, ?_, ?_⟩
  · intro line hline segment hsegment
    obtain ⟨number, -, rfl⟩ := List.mem_map.mp hline
    obtain ⟨m, hm, rfl⟩ := List.mem_map.mp hsegment
    have hm : m ∈ index.mappings := (mem_onLine.mp (mem_sortOn.mp hm)).1
    refine ⟨m, hm, Mapping.segmentIn_places (registered m hm) ?_⟩
    intro name hname
    exact NameTable.mem_noteAll _ (hname ▸ List.mem_map_of_mem hm)
  · intro reordered hreordered
    have htable := (NameTable.length_noteAll_le index.mappings).trans h.names
    apply MappingsText.exists_write
    intro line hline segment hsegment
    obtain ⟨m, hm, hplaces⟩ := hreordered line hline segment hsegment
    exact h.segment htable hm hplaces

/-- A bounded index whose sources are registered is encoded with all options. -/
theorem Bounded.exists_encode (h : index.Bounded)
    (registered : ∀ m ∈ index.mappings, m.source ∈ index.registry.sources)
    (options : EncodeOptions) (surroundings : Surroundings) :
    ∃ map, index.encode options surroundings = .ok map := by
  obtain ⟨lines, table, hlines, hplaced, hwrite⟩ := h.segmentLines registered
  obtain ⟨text, htext⟩ :=
    hwrite (List.replicate options.preambleLineCount.toNat [] ++ lines) (by
      intro line hline segment hsegment
      rcases List.mem_append.mp hline with hline | hline
      · rw [List.eq_of_mem_replicate hline] at hsegment
        cases hsegment
      · exact hplaced line hline segment hsegment)
  unfold encode
  rw [hlines, ok_bind]
  simp only [htext, ok_bind]
  exact ⟨_, rfl⟩

end Index

/-! ### Decoding, inverting and merging -/

namespace ReverseIndex

variable {first second merged : ReverseIndex} {between : Option Text}

theorem bounded_invert {index : ReverseIndex} (h : (Index.reverse index).Bounded) :
    (Index.forward index.invert).Bounded := by
  apply h.of_mem_iff
  · intro m
    show m ∈ index.invert.mappings ↔ m ∈ index.mappings
    rw [invert, ForwardIndex.mappings_ofMappings, mem_sortOn]
  · exact congrArg Registry.sources index.registry_invert

/-- The names of a merged index are those of the two stages. -/
theorem names_compose (h : first.compose second between = .ok merged) :
    (Index.reverse merged).names ⊆ (Index.reverse first).names ∪ (Index.reverse second).names := by
  intro name hname
  obtain ⟨m, hm, hmname⟩ := Index.mem_names.mp hname
  obtain ⟨p, hp, q, hq, rfl⟩ := exists_of_mem_compose h hm
  have hor : q.name.or p.name = some name := hmname
  apply Finset.mem_union.mpr
  rcases Option.or_eq_some_iff.mp hor with hqname | ⟨-, hpname⟩
  · exact .inr (Index.mem_names.mpr ⟨q, hq, hqname⟩)
  · exact .inl (Index.mem_names.mpr ⟨p, hp, hpname⟩)

theorem registry_compose (h : first.compose second between = .ok merged) :
    merged.registry = first.registry := by
  obtain ⟨file, -, hmerged⟩ := bind_eq_ok_iff.mp h
  cases hmerged
  rfl

/-- Bounded indexes merge to a bounded one, unless it has too many names. -/
theorem bounded_compose (hfirst : (Index.reverse first).Bounded)
    (hsecond : (Index.reverse second).Bounded) (h : first.compose second between = .ok merged)
    (hnames : (Index.reverse merged).names.card ≤ 2 ^ 31) : (Index.reverse merged).Bounded where
  mappings m hm := by
    obtain ⟨p, hp, q, hq, rfl⟩ := exists_of_mem_compose h hm
    obtain ⟨-, -, hline, hcolumn⟩ := hfirst.mappings p hp
    obtain ⟨hgenerated, hplace, -, -⟩ := hsecond.mappings q hq
    exact ⟨hgenerated, hplace, hline, hcolumn⟩
  sources := by
    show merged.registry.sources.length ≤ _
    rw [registry_compose h]
    exact hfirst.sources
  names := hnames

theorem compose_cases (first second : ReverseIndex) (between : Option Text) :
    (∃ merged, first.compose second between = .ok merged) ∨
    between = none ∧ second.registry.sources.length ≠ 1 ∧
      first.compose second between =
        .error (.ambiguousIntermediate second.registry.sources.length) := by
  cases between with
  | some file => exact .inl ⟨_, first.compose_some second file⟩
  | none =>
    by_cases hone : second.registry.sources.length = 1
    · obtain ⟨file, hfile⟩ := List.length_eq_one_iff.mp hone
      rw [first.compose_none_of_eq hfile]
      exact .inl ⟨_, first.compose_some second file⟩
    · exact .inr ⟨rfl, hone, first.compose_none_of_ne hone⟩

/-- Both indexes of a map have the same mappings and sources. -/
theorem bounded_ofMap {map : SourceMap} {forward : ForwardIndex}
    (hforward : ForwardIndex.ofMap map = .ok forward) (h : (Index.forward forward).Bounded) :
    ∃ reverse, ofMap map = .ok reverse ∧ (Index.reverse reverse).Bounded := by
  obtain ⟨mappings, hmappings, rfl⟩ := map_eq_ok_iff.mp hforward
  refine ⟨.ofMappings map.sourceNames mappings, ?_, h.of_mem_iff ?_ ?_⟩
  · rw [ofMap, hmappings, map_ok]
  · intro m
    simp only [Index.mappings, mappings_ofMappings, ForwardIndex.mappings_ofMappings, mem_sortOn]
  · simp only [Index.sources, Index.registry, registry_ofMappings,
      ForwardIndex.registry_ofMappings]

end ReverseIndex

/-- Positions from 0 to `2 ^ 31 - 1` always encode. A built index of either direction with such
positions, no negative generated line and at most `2 ^ 31` sources and names is encoded with all
options, and its segments can be written in any order. So a map that decodes to such positions is
written anew from either of its indexes, and its reverse index inverts to one that is encoded. Two
such indexes merge unless the file between them is ambiguous, and what they merge to is encoded; it
has no names but theirs, and only if those are too many can it fail. -/
theorem Index.encode_bounded :
    (∀ index : Index, index.Built → index.Bounded →
      (∀ options surroundings, ∃ map, index.encode options surroundings = .ok map) ∧
      ∃ lines table, index.segmentLines {} = .ok (lines, table) ∧
        ∀ reordered : List (List Segment),
          (∀ line ∈ reordered, ∀ segment ∈ line,
            ∃ m ∈ index.mappings, segment.Places index table m) →
          ∃ text, MappingsText.write reordered = .ok text) ∧
    (∀ map forward, ForwardIndex.ofMap map = .ok forward → (Index.forward forward).Bounded →
      ∃ reverse, ReverseIndex.ofMap map = .ok reverse ∧ (Index.reverse reverse).Bounded ∧
        ∀ options surroundings, ∃ written written' inverted,
          (Index.forward forward).encode options surroundings = .ok written ∧
          (Index.reverse reverse).encode options surroundings = .ok written' ∧
          (Index.forward reverse.invert).encode options surroundings = .ok inverted) ∧
    ∀ first second : ReverseIndex, (Index.reverse first).Bounded → (Index.reverse second).Bounded →
      ∀ between,
        ((∃ merged, first.compose second between = .ok merged) ∨
          between = none ∧ second.registry.sources.length ≠ 1 ∧
            first.compose second between =
              .error (.ambiguousIntermediate second.registry.sources.length)) ∧
        ∀ merged, first.compose second between = .ok merged →
          (Index.reverse merged).names ⊆
            (Index.reverse first).names ∪ (Index.reverse second).names ∧
          ((Index.reverse merged).names.card ≤ 2 ^ 31 → ∀ options surroundings,
            ∃ written, (Index.reverse merged).encode options surroundings = .ok written) := by
  refine ⟨?_, ?_, ?_⟩
  · intro index built h
    obtain ⟨lines, table, hlines, -, hwrite⟩ := h.segmentLines built.registered
    exact ⟨h.exists_encode built.registered, lines, table, hlines, hwrite⟩
  · intro map forward hforward h
    obtain ⟨reverse, hreverse, h'⟩ := ReverseIndex.bounded_ofMap hforward h
    have hregistered := (ForwardIndex.built_ofMap hforward).1.coherent.registered
    have hinverted := (ReverseIndex.built_invert reverse).1.coherent.registered
    refine ⟨reverse, hreverse, h', ?_⟩
    intro options surroundings
    obtain ⟨written, hwritten⟩ := h.exists_encode hregistered options surroundings
    obtain ⟨written', hwritten'⟩ :=
      h'.exists_encode reverse.registered_mappings options surroundings
    obtain ⟨inverted, hinverted⟩ :=
      (ReverseIndex.bounded_invert h').exists_encode hinverted options surroundings
    exact ⟨written, written', inverted, hwritten, hwritten', hinverted⟩
  · intro first second hfirst hsecond between
    refine ⟨ReverseIndex.compose_cases first second between, ?_⟩
    intro merged hmerged
    refine ⟨ReverseIndex.names_compose hmerged, ?_⟩
    intro hnames
    exact (ReverseIndex.bounded_compose hfirst hsecond hmerged hnames).exists_encode
      merged.registered_mappings

/-- A map that goes from the least to the greatest position and back. -/
def farApart : SourceMap :=
  { sources := [some "a"], names := ["x"],
    mappings := "AAAAA,+/////DA+/////D+/////D;AA//////D//////D" }

theorem Index.encode_bounded_farApart :
    ∃ forward reverse merged, ForwardIndex.ofMap farApart = .ok forward ∧
      (Index.forward forward).Built ∧ (Index.forward forward).Bounded ∧
      (∃ written, (Index.forward forward).encode { preambleLineCount := 3, verbatim := true } {} =
        .ok written) ∧
      ReverseIndex.ofMap farApart = .ok reverse ∧
      reverse.compose reverse (some "a") = .ok merged ∧
      ∀ options surroundings, ∃ written written' inverted joined,
        (Index.forward forward).encode options surroundings = .ok written ∧
        (Index.reverse reverse).encode options surroundings = .ok written' ∧
        (Index.forward reverse.invert).encode options surroundings = .ok inverted ∧
        (Index.reverse merged).encode options surroundings = .ok joined := by
  let mappings : List Mapping := [⟨0, 0, "a", 0, 0, some "x"⟩,
    ⟨0, 2147483647, "a", 2147483647, 2147483647, none⟩, ⟨1, 0, "a", 0, 0, none⟩]
  have hresolved : farApart.resolved = .ok mappings := by cbv
  have hforward : ForwardIndex.ofMap farApart = .ok (.ofMappings ["a"] mappings) :=
    congrArg (ForwardIndex.ofMappings farApart.sourceNames <$> ·) hresolved
  have hreverse : ReverseIndex.ofMap farApart = .ok (.ofMappings ["a"] mappings) :=
    congrArg (ReverseIndex.ofMappings farApart.sourceNames <$> ·) hresolved
  have hname : ∀ m ∈ mappings, ∀ name, m.name = some name → name = "x" := by
    simp [mappings, eq_comm]
  have hnames : (Index.forward (.ofMappings ["a"] mappings)).names ⊆ {("x" : Text)} := by
    intro name h
    obtain ⟨m, hm, hmname⟩ := Index.mem_names.mp h
    rw [Index.mappings, ForwardIndex.mappings_ofMappings, mem_sortOn] at hm
    exact Finset.mem_singleton.mpr (hname m hm name hmname)
  have hnames' : (Index.reverse (.ofMappings ["a"] mappings)).names ⊆ {("x" : Text)} := by
    intro name h
    obtain ⟨m, hm, hmname⟩ := Index.mem_names.mp h
    rw [Index.mappings, ReverseIndex.mappings_ofMappings, mem_sortOn] at hm
    exact Finset.mem_singleton.mpr (hname m hm name hmname)
  have hbounded : (Index.forward (.ofMappings ["a"] mappings)).Bounded := {
    mappings := by
      intro m hm
      rw [Index.mappings, ForwardIndex.mappings_ofMappings, mem_sortOn] at hm
      revert m
      decide
    sources := by
      show (ForwardIndex.ofMappings ["a"] mappings).registry.sources.length ≤ _
      rw [ForwardIndex.registry_ofMappings]
      decide
    names := (Finset.card_le_card hnames).trans (by norm_num) }
  obtain ⟨reverse, hsame, hbounded', hencode⟩ :=
    Index.encode_bounded.2.1 farApart _ hforward hbounded
  obtain rfl : .ofMappings ["a"] mappings = reverse := Except.ok.inj (hreverse.symm.trans hsame)
  obtain ⟨-, hmerge⟩ := Index.encode_bounded.2.2 _ _ hbounded' hbounded' (some "a")
  obtain ⟨hunion, hjoined⟩ := hmerge _ rfl
  have hcard : (Index.reverse _).names.card ≤ 2 ^ 31 :=
    (Finset.card_le_card (hunion.trans (Finset.union_subset hnames' hnames'))).trans (by norm_num)
  have hbuilt : (Index.forward (.ofMappings ["a"] mappings)).Built :=
    ForwardIndex.built_ofMappings _ _
  have hpreamble := (Index.encode_bounded.1 _ hbuilt hbounded).1
    { preambleLineCount := 3, verbatim := true } {}
  refine ⟨_, _, _, hforward, hbuilt, hbounded, hpreamble, hreverse, rfl, ?_⟩
  intro options surroundings
  obtain ⟨written, written', inverted, hwritten, hwritten', hinverted⟩ :=
    hencode options surroundings
  obtain ⟨joined, hjoined⟩ := hjoined hcard options surroundings
  exact ⟨written, written', inverted, joined, hwritten, hwritten', hinverted, hjoined⟩

end SourceMaps
