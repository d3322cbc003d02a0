import Mathlib.Data.List.Induction
import SourceMaps.Encode
import SourceMaps.Proofs.Index.Forward
import SourceMaps.Proofs.NameTable
import SourceMaps.Proofs.Outcome

/-!
# Segment lines: every mapping on its line

Mappings are put on their lines one by one while the names are collected. At each moment the lines
hold the segments of the mappings passed, and their names have the positions that they have in the
final table, so the lines can be stated at once.

## Main definitions

* `Mapping.segmentIn`: the segment of a mapping, with the positions that a final table gives.
* `lineCount`, `onLine`: the lines that mappings reach, and the mappings of one.
* `segmentsByLine`: the segments of mappings by line.

## Main statements

* `placeSegment_segmentsByLine`: one more segment on the lines of those passed.
* `Index.segmentLines_eq`: the segments and the names of an index.
* `flatMap_onLine`: line by line and in the order of columns, mappings are sorted by place.
-/

namespace SourceMaps

/-- The segment of a mapping whose source is registered and whose name, if it has one, is in the
table. -/
def Mapping.segmentIn (registry : Registry) (table : NameTable) (m : Mapping) : Segment :=
  match m.name with
  | none => .sourced m.generatedColumn (registry.slot m.source) m.line m.column
  | some name =>
    .named m.generatedColumn (registry.slot m.source) m.line m.column (table.items.idxOf name)

theorem Mapping.column_segmentIn (registry : Registry) (table : NameTable) (m : Mapping) :
    (m.segmentIn registry table).column = m.generatedColumn := by
  unfold segmentIn
  split <;> rfl

/-- The segment that is written for a mapping has the positions of every table that comes later. -/
theorem Mapping.segment_eq {registry : Registry} {slot : Nat} {table final : NameTable}
    {m : Mapping} (hslot : registry.slot m.source = slot)
    (hfinal : (table.note m.name).items <+: final.items) :
    m.segment slot table = (m.segmentIn registry final, table.note m.name) := by
  unfold segment segmentIn
  rw [hslot]
  cases hname : m.name with
  | none => rfl
  | some name =>
    rw [hname] at hfinal
    have hposition : (table.intern name).1 = final.items.idxOf name := by
      rw [NameTable.intern_fst]
      exact hfinal.idxOf_eq_of_mem (table.mem_items_intern name)
    show (Segment.named _ _ _ _ ((table.intern name).1 : Int), _) = _
    rw [hposition]
    rfl

/-! ### Mappings by line -/

/-- The number of lines that mappings reach: one more than the greatest of their lines. -/
def lineCount (mappings : List Mapping) : Nat :=
  mappings.foldl (fun count m => max count (m.generatedLine.toNat + 1)) 0

theorem lineCount_concat (mappings : List Mapping) (m : Mapping) :
    lineCount (mappings ++ [m]) = max (lineCount mappings) (m.generatedLine.toNat + 1) := by
  rw [lineCount, List.foldl_append]
  rfl

theorem lt_lineCount {mappings : List Mapping} {m : Mapping} (h : m ∈ mappings) :
    m.generatedLine.toNat < lineCount mappings := by
  induction mappings using List.reverseRecOn with
  | nil => simp at h
  | append_singleton rest last ih =>
    rw [lineCount_concat]
    rcases List.mem_append.mp h with h | h
    · have hlt := ih h
      omega
    · obtain rfl := List.mem_singleton.mp h
      omega

theorem lineCount_le {mappings : List Mapping} {n : Nat}
    (h : ∀ m ∈ mappings, m.generatedLine.toNat < n) : lineCount mappings ≤ n := by
  induction mappings using List.reverseRecOn with
  | nil => exact Nat.zero_le n
  | append_singleton rest last ih =>
    have hrest := ih fun m hm => h m (List.mem_append_left _ hm)
    have hlast := h last (by simp)
    rw [lineCount_concat]
    omega

/-- The mappings of a line, in their order. -/
def onLine (line : Nat) (mappings : List Mapping) : List Mapping :=
  mappings.filter (·.generatedLine = line)

theorem onLine_eq_nil {line : Nat} {mappings : List Mapping} (h : lineCount mappings ≤ line) :
    onLine line mappings = [] := by
  refine List.filter_eq_nil_iff.mpr fun m hm heq => ?_
  have hlt := lt_lineCount hm
  have hline : m.generatedLine = line := by simpa using heq
  omega

/-- The segments of mappings by line. -/
def segmentsByLine (segment : Mapping → Segment) (mappings : List Mapping) :
    List (List Segment) :=
  (List.range (lineCount mappings)).map fun line => (onLine line mappings).map segment

theorem length_segmentsByLine (segment : Mapping → Segment) (mappings : List Mapping) :
    (segmentsByLine segment mappings).length = lineCount mappings := by
  rw [segmentsByLine, List.length_map, List.length_range]

theorem getElem?_segmentsByLine (segment : Mapping → Segment) (mappings : List Mapping)
    (line : Nat) :
    (segmentsByLine segment mappings)[line]? =
      if line < lineCount mappings then some ((onLine line mappings).map segment) else none := by
  rw [segmentsByLine, List.getElem?_map]
  split
  · next h => rw [List.getElem?_range h, Option.map_some]
  · next h => rw [List.getElem?_eq_none (by simpa using h), Option.map_none]

theorem onLine_concat (line : Nat) (mappings : List Mapping) (m : Mapping) :
    onLine line (mappings ++ [m]) =
      if m.generatedLine = line then onLine line mappings ++ [m] else onLine line mappings := by
  rw [onLine, List.filter_append]
  split
  · next h => rw [List.filter_cons_of_pos (by simpa using h)]; rfl
  · next h => rw [List.filter_cons_of_neg (by simpa using h), List.filter_nil, List.append_nil]; rfl

/-- Empty lines up to a further line leave the mappings of every line. -/
theorem getElem?_segmentsByLine_padded (segment : Mapping → Segment) (mappings : List Mapping)
    (extra line : Nat) :
    (segmentsByLine segment mappings ++ List.replicate extra [])[line]? =
      if line < lineCount mappings + extra then some ((onLine line mappings).map segment)
      else none := by
  rw [List.getElem?_append, length_segmentsByLine, getElem?_segmentsByLine,
    List.getElem?_replicate]
  by_cases hreached : line < lineCount mappings
  · rw [if_pos hreached, if_pos hreached, if_pos (by omega)]
  · rw [if_neg hreached, onLine_eq_nil (by omega), List.map_nil]
    exact if_congr (by omega) rfl rfl

/-- Putting the segment of a mapping on its line adds the mapping to those passed. -/
theorem placeSegment_segmentsByLine (segment : Mapping → Segment) (passed : List Mapping)
    {m : Mapping} (h : 0 ≤ m.generatedLine) :
    placeSegment (segmentsByLine segment passed) m.generatedLine (segment m) =
      .ok (segmentsByLine segment (passed ++ [m])) := by
  obtain ⟨k, hk⟩ := Int.eq_ofNat_of_zero_le h
  have hpadding : (m.generatedLine + 1 - (segmentsByLine segment passed).length).toNat =
      k + 1 - lineCount passed := by
    rw [length_segmentsByLine]
    omega
  have hposition : m.generatedLine.toNat = k := by omega
  rw [placeSegment, hpadding, if_neg (by omega)]
  simp only [if_neg (show ¬m.generatedLine < 0 by omega), hposition]
  refine congrArg Except.ok (List.ext_getElem? fun line => ?_)
  rw [List.getElem?_modify, getElem?_segmentsByLine_padded, getElem?_segmentsByLine,
    lineCount_concat, hposition, onLine_concat]
  have hcount : lineCount passed + (k + 1 - lineCount passed) = max (lineCount passed) (k + 1) := by
    omega
  rw [hcount]
  by_cases hreached : line < max (lineCount passed) (k + 1)
  · rw [if_pos hreached, if_pos hreached]
    by_cases hline : k = line
    · rw [if_pos (by omega)]
      simp [hline]
    · rw [if_neg (by omega)]
      simp [hline]
  · rw [if_neg hreached, if_neg hreached]
    rfl

/-! ### Collecting -/

theorem Index.slotOf_eq {index : Index} {source : Text} (h : source ∈ index.registry.sources) :
    index.slotOf source = .ok (index.registry.sources.idxOf source) := by
  rw [slotOf, Registry.slot?_eq h]

/-- Collecting goes on from the segments of the mappings passed to those of all, with positions in
any table that comes later. -/
theorem collectSegments_eq {index : Index} {table final : NameTable} (passed : List Mapping)
    {rest : List Mapping} (registered : ∀ m ∈ rest, m.source ∈ index.registry.sources)
    (lines : ∀ m ∈ rest, 0 ≤ m.generatedLine)
    (hfinal : (table.noteAll (rest.map (·.name))).items <+: final.items) :
    let segment := Mapping.segmentIn index.registry final
    collectSegments index.slotOf (segmentsByLine segment passed) table rest =
      .ok (segmentsByLine segment (passed ++ rest), table.noteAll (rest.map (·.name))) := by
  intro segment
  -- The segments of the mappings passed stay as they are, since `final` is fixed in the induction.
  induction rest generalizing passed table with
  | nil =>
    rw [List.append_nil]
    rfl
  | cons m rest ih =>
    have hslot := Index.slotOf_eq (registered m (by simp))
    rw [List.map_cons, NameTable.noteAll_cons] at hfinal ⊢
    have hnoted : (table.note m.name).items <+: final.items :=
      (NameTable.items_prefix_noteAll _ _).trans hfinal
    rw [collectSegments, hslot, ok_bind, Mapping.segment_eq rfl hnoted]
    show (placeSegment _ m.generatedLine (segment m) >>= _) = _
    rw [placeSegment_segmentsByLine segment passed (lines m (by simp)), ok_bind,
      ih (passed ++ [m]) (fun n hn => registered n (List.mem_cons_of_mem m hn))
        (fun n hn => lines n (List.mem_cons_of_mem m hn)) hfinal, List.append_assoc]
    rfl

/-- The segments of an index: on every line those of its mappings there in the order of their
columns, with the positions of the final table. -/
theorem Index.segmentLines_eq {index : Index} (table : NameTable)
    (registered : ∀ m ∈ index.mappings, m.source ∈ index.registry.sources)
    (lines : ∀ m ∈ index.mappings, 0 ≤ m.generatedLine) :
    let final := table.noteAll (index.mappings.map (·.name))
    index.segmentLines table =
      .ok ((List.range (lineCount index.mappings)).map fun line =>
        (sortOn Mapping.generatedColumn (onLine line index.mappings)).map
          (Mapping.segmentIn index.registry final), final) := by
  intro final
  have hcollect := collectSegments_eq [] registered lines (List.prefix_refl final.items)
  rw [segmentLines]
  show (collectSegments index.slotOf (segmentsByLine (Mapping.segmentIn index.registry final) [])
    table index.mappings >>= _) = _
  rw [hcollect, ok_bind, segmentsByLine, List.nil_append]
  refine congrArg Except.ok (Prod.ext ?_ rfl)
  rw [List.map_map]
  refine List.map_congr_left fun line _ => ?_
  exact (map_sortOn (Mapping.column_segmentIn index.registry final) _).symm

/-! ### The order of the lines -/

/-- Mappings of one place are those of its column among those of its line. -/
theorem filter_place_eq (mappings : List Mapping) (m : Mapping) :
    mappings.filter (·.place = m.place) =
      (mappings.filter (·.generatedLine = m.generatedLine)).filter
        (·.generatedColumn = m.generatedColumn) := by
  rw [List.filter_filter]
  refine List.filter_congr fun n _ => ?_
  rw [← Bool.decide_and, decide_eq_decide, and_comm]
  exact Mapping.place_eq_iff

theorem mem_onLine {line : Nat} {mappings : List Mapping} {m : Mapping} :
    m ∈ onLine line mappings ↔ m ∈ mappings ∧ m.generatedLine = line := by
  simp [onLine]

/-- Line by line and in the order of columns, mappings are in the order of their places. -/
theorem flatMap_onLine {mappings : List Mapping} (h : ∀ m ∈ mappings, 0 ≤ m.generatedLine) :
    ((List.range (lineCount mappings)).flatMap fun line =>
      sortOn Mapping.generatedColumn (onLine line mappings)) = sortOn Mapping.place mappings := by
  have hline {line : Nat} {m : Mapping}
      (hm : m ∈ sortOn Mapping.generatedColumn (onLine line mappings)) :
      m ∈ mappings ∧ m.generatedLine = line := mem_onLine.mp (mem_sortOn.mp hm)
  refine eq_sortOn ?_ fun m hm => ?_
  · refine List.pairwise_flatMap.mpr ⟨fun line _ => ?_, ?_⟩
    · refine (ascending_sortOn Mapping.generatedColumn _).imp_of_mem fun {a b} ha hb hab => ?_
      have heq : a.generatedLine = b.generatedLine := (hline ha).2.trans (hline hb).2.symm
      exact Prod.Lex.toLex_le_toLex.mpr (.inr ⟨heq, hab⟩)
    · refine List.pairwise_lt_range.imp fun {i j} hij a ha b hb => ?_
      have hi := (hline ha).2
      have hj := (hline hb).2
      exact Prod.Lex.toLex_le_toLex.mpr (.inl (show a.generatedLine < b.generatedLine by omega))
  · have hmem : m ∈ mappings := by
      rcases hm with hm | hm
      · obtain ⟨line, -, hm⟩ := List.mem_flatMap.mp hm
        exact (hline hm).1
      · exact hm
    obtain ⟨k, hk⟩ := Int.eq_ofNat_of_zero_le (h m hmem)
    have hreached : k < lineCount mappings := by
      have hlt := lt_lineCount hmem
      omega
    -- Only the line of `m` holds mappings of its place.
    have hone : (List.range (lineCount mappings)).filter (fun line => line = k) = [k] := by
      rw [List.filter_eq, List.count_range, if_pos hreached]
      rfl
    have hfilter : ((List.range (lineCount mappings)).flatMap fun line =>
        sortOn Mapping.generatedColumn (onLine line mappings)).filter
          (·.generatedLine = m.generatedLine) =
            sortOn Mapping.generatedColumn (onLine k mappings) :=
      calc
        _ = ((List.range (lineCount mappings)).filter (fun line => line = k)).flatMap fun line =>
            sortOn Mapping.generatedColumn (onLine line mappings) :=
          filter_flatMap_of_forall fun line _ n hn => by
            rw [decide_eq_decide, (hline hn).2, hk, Int.natCast_inj]
        _ = _ := by rw [hone, List.flatMap_singleton]
    rw [filter_place_eq, hfilter, filter_key_sortOn, filter_place_eq, onLine, hk]

end SourceMaps
