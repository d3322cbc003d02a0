import SourceMaps.Proofs.Flattening

/-!
# Flattening with negative lines

A mapping on a negative line is put on the line that is so many lines back from the end of those
that are there when its turn comes. If there are too few of them, the index cannot be flattened;
otherwise the mapping stands on a line that is not its own. So a built index, unless it is refused,
keeps its mappings on their lines exactly if none of these is negative.

## Main definitions

* `Mapping.landing`, `Mapping.landed`, `landed`: the lines on which mappings are put.
* `Overreaches`: lists with a mapping that is to be put before the first line.
* `Mapping.StandsInPlace`: a mapping has its segment on its line.

## Main statements

* `placeSegment_landed`: one more segment on the lines of those passed.
* `collectSegments_cases`: the lines that hold the mappings of a list, or none.
* `Index.segmentLines_inPlace_iff`: what flattening answers, and when mappings stay in place.
-/

namespace SourceMaps

/-- The line on which a mapping is put when there are `count` lines: its own, but a negative one
counts back from the last. -/
def Mapping.landing (count : Nat) (m : Mapping) : Int :=
  if m.generatedLine < 0 then count + m.generatedLine else m.generatedLine

/-- The mapping on the line on which it is put. -/
def Mapping.landed (count : Nat) (m : Mapping) : Mapping :=
  { m with generatedLine := m.landing count }

/-- The mappings on the lines on which they are put one after the other. -/
def landed (mappings : List Mapping) : List Mapping :=
  mappings.foldl (fun placed m => placed ++ [m.landed (lineCount placed)]) []

/-- A mapping of the list goes back farther than there are lines for those before it. -/
def Overreaches (mappings : List Mapping) : Prop :=
  ∃ before m after, mappings = before ++ m :: after ∧
    (lineCount before : Int) + m.generatedLine < 0

variable {mappings : List Mapping} {m : Mapping} {count : Nat}

/-! ### Landing -/

theorem Mapping.generatedLine_landed (count : Nat) (m : Mapping) :
    (m.landed count).generatedLine = m.landing count := rfl

theorem Mapping.landing_of_nonneg (h : 0 ≤ m.generatedLine) (count : Nat) :
    m.landing count = m.generatedLine := if_neg (not_lt.mpr h)

theorem Mapping.landed_of_nonneg (h : 0 ≤ m.generatedLine) (count : Nat) : m.landed count = m := by
  rw [landed, landing_of_nonneg h]

theorem Mapping.landing_of_negative (h : m.generatedLine < 0) (count : Nat) :
    m.landing count = count + m.generatedLine := if_pos h

theorem Mapping.landing_nonneg (h : 0 ≤ (count : Int) + m.generatedLine) :
    0 ≤ m.landing count := by
  unfold landing
  split <;> omega

theorem landed_concat (mappings : List Mapping) (m : Mapping) :
    landed (mappings ++ [m]) = landed mappings ++ [m.landed (lineCount (landed mappings))] := by
  rw [landed, List.foldl_append]
  rfl

theorem landed_eq_self (h : ∀ m ∈ mappings, 0 ≤ m.generatedLine) : landed mappings = mappings := by
  induction mappings using List.reverseRecOn with
  | nil => rfl
  | append_singleton rest last ih =>
    obtain ⟨hrest, hlast⟩ := List.forall_mem_append.mp h
    rw [landed_concat, ih hrest, Mapping.landed_of_nonneg (hlast last List.mem_cons_self)]

theorem exists_of_mem_landed (h : m ∈ landed mappings) :
    ∃ n ∈ mappings, ∃ count, m = n.landed count := by
  induction mappings using List.reverseRecOn with
  | nil => cases h
  | append_singleton rest last ih =>
    rw [landed_concat] at h
    rcases List.mem_append.mp h with h | h
    · obtain ⟨n, hn, hm⟩ := ih h
      exact ⟨n, List.mem_append_left _ hn, hm⟩
    · exact ⟨last, by simp, _, List.mem_singleton.mp h⟩

/-- Where a mapping goes back it reaches no line that was not there. -/
theorem lineCount_landed_concat (hcount : lineCount (landed mappings) = lineCount mappings)
    (h : 0 ≤ (lineCount mappings : Int) + m.generatedLine) :
    lineCount (landed (mappings ++ [m])) = lineCount (mappings ++ [m]) := by
  rw [landed_concat, lineCount_concat, lineCount_concat, hcount]
  show max (lineCount mappings) ((m.landing (lineCount mappings)).toNat + 1) = _
  unfold Mapping.landing
  split <;> omega

theorem overreaches_concat : Overreaches (mappings ++ [m]) ↔
    Overreaches mappings ∨ (lineCount mappings : Int) + m.generatedLine < 0 := by
  constructor
  · rintro ⟨before, n, after, hsplit, hline⟩
    rcases List.eq_nil_or_concat after with rfl | ⟨after, last, rfl⟩
    · obtain ⟨rfl, rfl⟩ : mappings = before ∧ m = n := by simpa using hsplit
      exact .inr hline
    · refine .inl ⟨before, n, after, ?_, hline⟩
      rw [List.concat_eq_append, ← List.cons_append, ← List.append_assoc] at hsplit
      exact (List.append_inj' hsplit rfl).1
  · rintro (⟨before, n, after, rfl, hline⟩ | hline)
    · exact ⟨before, n, after ++ [m], by simp, hline⟩
    · exact ⟨mappings, m, [], rfl, hline⟩

theorem not_overreaches (h : ∀ m ∈ mappings, 0 ≤ m.generatedLine) : ¬Overreaches mappings := by
  rintro ⟨before, m, after, rfl, hline⟩
  have hnonneg := h m (by simp)
  omega

/-! ### Placing -/

theorem placeSegment_of_overreaching {lines : List (List Segment)} {line : Int}
    (h : (lines.length : Int) + line < 0) (segment : Segment) :
    placeSegment lines line segment = .error .lineOutOfRange := by
  have hline : line < 0 := by omega
  simp only [placeSegment, if_pos hline, if_pos h]

theorem placeSegment_of_negative {lines : List (List Segment)} {line : Int} (hline : line < 0)
    (hback : 0 ≤ (lines.length : Int) + line) (segment : Segment) :
    placeSegment lines line segment = placeSegment lines (lines.length + line) segment := by
  have hpadding : (line + 1 - lines.length).toNat = 0 := by omega
  have hthere : ((lines.length : Int) + line + 1 - lines.length).toNat = 0 := by omega
  simp only [placeSegment, if_pos hline, if_neg (not_lt.mpr hback), hpadding, hthere]

/-- Placing the segment of a mapping that does not go back too far adds the mapping, on the line on
which it is put, to those passed. -/
theorem placeSegment_landed {segment : Mapping → Segment} {passed : List Mapping}
    (hsegment : ∀ count, segment (m.landed count) = segment m)
    (h : 0 ≤ (lineCount passed : Int) + m.generatedLine) :
    placeSegment (segmentsByLine segment passed) m.generatedLine (segment m) =
      .ok (segmentsByLine segment (passed ++ [m.landed (lineCount passed)])) := by
  have hlanded := placeSegment_segmentsByLine segment passed (m := m.landed (lineCount passed))
    (Mapping.landing_nonneg h)
  rw [hsegment, Mapping.generatedLine_landed] at hlanded
  have hplaced : placeSegment (segmentsByLine segment passed) m.generatedLine (segment m) =
      placeSegment (segmentsByLine segment passed) (m.landing (lineCount passed)) (segment m) := by
    by_cases hline : m.generatedLine < 0
    · rw [placeSegment_of_negative hline (by rwa [length_segmentsByLine]), length_segmentsByLine,
        Mapping.landing_of_negative hline]
    · rw [Mapping.landing_of_nonneg (not_lt.mp hline)]
  exact hplaced.trans hlanded

/-! ### Collecting -/

theorem collectSegments_append (slotOf : Text → Except Fault Nat) (lines : List (List Segment))
    (names : NameTable) (first second : List Mapping) :
    collectSegments slotOf lines names (first ++ second) =
      collectSegments slotOf lines names first >>= fun collected =>
        collectSegments slotOf collected.1 collected.2 second := by
  induction first generalizing lines names with
  | nil => rfl
  | cons m first ih =>
    rw [List.cons_append, collectSegments, collectSegments]
    cases slotOf m.source with
    | error fault => rfl
    | ok slot =>
      simp only [ok_bind]
      generalize m.segment slot names = written
      obtain ⟨segment, noted⟩ := written
      simp only
      cases placeSegment lines m.generatedLine segment with
      | error fault => rfl
      | ok placed => simp only [ok_bind, ih]

/-- Collecting fails if a mapping goes back too far, and otherwise the lines hold the mappings as
they are put, with positions in any table that comes later. -/
theorem collectSegments_cases {index : Index} {table final : NameTable}
    (registered : ∀ m ∈ mappings, m.source ∈ index.registry.sources)
    (hfinal : (table.noteAll (mappings.map (·.name))).items <+: final.items) :
    (Overreaches mappings ∧
        collectSegments index.slotOf [] table mappings = .error .lineOutOfRange) ∨
      ¬Overreaches mappings ∧ lineCount (landed mappings) = lineCount mappings ∧
        collectSegments index.slotOf [] table mappings =
          .ok (segmentsByLine (Mapping.segmentIn index.registry final) (landed mappings),
            table.noteAll (mappings.map (·.name))) := by
  -- The run is followed from its end, as each mapping is put where those before it allow.
  induction mappings using List.reverseRecOn with
  | nil => exact .inr ⟨not_overreaches nofun, rfl, rfl⟩
  | append_singleton rest last ih =>
    have hnames : table.noteAll ((rest ++ [last]).map (·.name)) =
        (table.noteAll (rest.map (·.name))).note last.name := by
      rw [List.map_append]
      exact List.foldl_append
    rw [hnames] at hfinal ⊢
    obtain ⟨hrest, hlast⟩ := List.forall_mem_append.mp registered
    have hnoted := (NameTable.items_prefix_note (table.noteAll (rest.map (·.name)))
      last.name).trans hfinal
    rw [overreaches_concat, collectSegments_append]
    rcases ih hrest hnoted with ⟨hover, hrun⟩ | ⟨hover, hcount, hrun⟩
    · rw [hrun]
      exact .inl ⟨.inl hover, rfl⟩
    · have hslot := Index.slotOf_eq (hlast last List.mem_cons_self)
      rw [hrun, ok_bind, collectSegments, hslot, ok_bind, Mapping.segment_eq rfl hfinal]
      show (_ ∧ (placeSegment _ last.generatedLine (last.segmentIn index.registry final) >>= _) = _)
        ∨ _ ∧ _ ∧ (placeSegment _ last.generatedLine (last.segmentIn index.registry final) >>= _) = _
      by_cases hline : (lineCount rest : Int) + last.generatedLine < 0
      · rw [placeSegment_of_overreaching (by rwa [length_segmentsByLine, hcount])]
        exact .inl ⟨.inr hline, rfl⟩
      · have hback := not_lt.mp hline
        rw [placeSegment_landed (fun _ => rfl) (by rwa [hcount]), ← landed_concat]
        exact .inr ⟨not_or.mpr ⟨hover, hline⟩, lineCount_landed_concat hcount hback, rfl⟩

/-! ### Flattening -/

/-- A mapping has a segment on the line whose number is its generated line. -/
def Mapping.StandsInPlace (index : Index) (table : NameTable) (found : List (List Segment))
    (m : Mapping) : Prop :=
  ∃ line : Nat, m.generatedLine = line ∧
    ∃ segments, found[line]? = some segments ∧ ∃ s ∈ segments, s.Places index table m

namespace Index

variable {index : Index} {table : NameTable} {line : Nat}

/-- The segments of an index on the lines on which its mappings are put, each line in the order of
its columns. -/
def landedLines (index : Index) (table : NameTable) : List (List Segment) :=
  (List.range (lineCount index.mappings)).map fun line =>
    (sortOn Mapping.generatedColumn (onLine line (landed index.mappings))).map
      (Mapping.segmentIn index.registry table)

theorem length_landedLines (index : Index) (table : NameTable) :
    (index.landedLines table).length = lineCount index.mappings := by
  rw [landedLines, List.length_map, List.length_range]

theorem getElem?_landedLines (h : line < lineCount index.mappings) :
    (index.landedLines table)[line]? =
      some ((sortOn Mapping.generatedColumn (onLine line (landed index.mappings))).map
        (Mapping.segmentIn index.registry table)) := by
  rw [landedLines, List.getElem?_map, List.getElem?_range h, Option.map_some]

/-- Flattening fails if a mapping goes back too far, and otherwise answers the segments on the lines
on which their mappings are put. -/
theorem segmentLines_cases (table : NameTable)
    (registered : ∀ m ∈ index.mappings, m.source ∈ index.registry.sources) :
    let final := table.noteAll (index.mappings.map (·.name))
    (Overreaches index.mappings ∧ index.segmentLines table = .error .lineOutOfRange) ∨
      ¬Overreaches index.mappings ∧
        index.segmentLines table = .ok (index.landedLines final, final) := by
  intro final
  rw [segmentLines]
  rcases collectSegments_cases registered (List.prefix_refl final.items) with
    ⟨hover, hrun⟩ | ⟨hover, hcount, hrun⟩
  · rw [hrun]
    exact .inl ⟨hover, rfl⟩
  · rw [hrun, ok_bind, segmentsByLine, hcount, landedLines]
    refine .inr ⟨hover, congrArg Except.ok (Prod.ext ?_ rfl)⟩
    simp only [List.map_map]
    refine List.map_congr_left fun line _ => ?_
    exact (map_sortOn (Mapping.column_segmentIn index.registry final) _).symm

theorem places_of_mem_landed (built : index.Built) (table : NameTable)
    (h : m ∈ landed index.mappings) :
    let final := table.noteAll (index.mappings.map (·.name))
    (m.segmentIn index.registry final).Places index final m := by
  intro final
  obtain ⟨n, hn, count, rfl⟩ := exists_of_mem_landed h
  refine Mapping.segmentIn_places (built.registered n hn) fun name hname => ?_
  have hnamed : n.name = some name := hname
  exact table.mem_noteAll (hnamed ▸ List.mem_map_of_mem hn)

theorem forall₂_landedLines (built : index.Built) (table : NameTable) {segments : List Segment} :
    let final := table.noteAll (index.mappings.map (·.name))
    (index.landedLines final)[line]? = some segments →
      List.Forall₂ (Segment.Places index final)
        (sortOn Mapping.generatedColumn (onLine line (landed index.mappings))) segments := by
  intro final hline
  have hreached : line < lineCount index.mappings := by
    rw [← length_landedLines index final]
    exact (List.getElem?_eq_some_iff.mp hline).1
  rw [getElem?_landedLines hreached, Option.some.injEq] at hline
  rw [← hline, List.forall₂_map_right_iff]
  refine List.forall₂_same.mpr fun m hm => ?_
  exact places_of_mem_landed built table (mem_onLine.mp (mem_sortOn.mp hm)).1

/-- All mappings are in place exactly if none of them is on a negative line. -/
theorem standsInPlace_iff (built : index.Built) (table : NameTable) :
    let final := table.noteAll (index.mappings.map (·.name))
    (∀ m ∈ index.mappings, m.StandsInPlace index final (index.landedLines final)) ↔
      ∀ m ∈ index.mappings, 0 ≤ m.generatedLine := by
  intro final
  constructor
  · intro hplaced m hm
    obtain ⟨line, hline, -⟩ := hplaced m hm
    omega
  · intro lines m hm
    obtain ⟨line, hline⟩ := Int.eq_ofNat_of_zero_le (lines m hm)
    have hmem : m ∈ landed index.mappings := by rwa [landed_eq_self lines]
    have hreached : line < lineCount index.mappings := by
      have hlt := lt_lineCount hm
      omega
    have hthere : m ∈ sortOn Mapping.generatedColumn (onLine line (landed index.mappings)) :=
      mem_sortOn.mpr (mem_onLine.mpr ⟨hmem, hline⟩)
    exact ⟨line, hline, _, getElem?_landedLines hreached, _, List.mem_map_of_mem hthere,
      places_of_mem_landed built table hmem⟩

/-- A built index is refused exactly if one of its mappings goes back farther than there are lines
for those before it. Otherwise each line holds the segments of the mappings that are put on it, in
the order of the index and sorted stably by column. So flattening either fails or has all mappings
in place exactly for the indexes that it refuses and for those without negative lines. -/
theorem segmentLines_inPlace_iff (built : index.Built) (table : NameTable) :
    (∀ fault, index.segmentLines table = .error fault ↔
      fault = .lineOutOfRange ∧ Overreaches index.mappings) ∧
    (∀ found final, index.segmentLines table = .ok (found, final) →
      found.length = lineCount index.mappings ∧
      ∀ (line : Nat) segments, found[line]? = some segments →
        List.Forall₂ (Segment.Places index final)
          (sortOn Mapping.generatedColumn
            ((landed index.mappings).filter (·.generatedLine = (line : Int)))) segments) ∧
    (((∃ fault, index.segmentLines table = .error fault) ∨
        ∃ found final, index.segmentLines table = .ok (found, final) ∧
          ∀ m ∈ index.mappings, m.StandsInPlace index final found) ↔
      Overreaches index.mappings ∨ ∀ m ∈ index.mappings, 0 ≤ m.generatedLine) := by
  rcases segmentLines_cases table built.registered with ⟨hover, hrun⟩ | ⟨hover, hrun⟩
  · rw [hrun]
    refine ⟨fun fault => ?_, nofun, iff_of_true (.inl ⟨_, rfl⟩) (.inl hover)⟩
    rw [Except.error.injEq, eq_comm]
    exact (and_iff_left hover).symm
  · rw [hrun]
    refine ⟨fun fault => ?_, fun found final h => ?_, ?_⟩
    · exact iff_of_false nofun fun h => hover h.2
    · cases h
      exact ⟨length_landedLines _ _, fun line segments => forall₂_landedLines built table⟩
    · have hplace := standsInPlace_iff built table
      rw [or_iff_right hover]
      refine ⟨?_, fun lines => .inr ⟨_, _, rfl, hplace.mpr lines⟩⟩
      rintro (⟨fault, h⟩ | ⟨found, final, h, hplaced⟩)
      · cases h
      · cases h
        exact hplace.mp hplaced

/-- A mapping on line 1, and two behind it that count back to the lines 0 and 1. -/
def backwards : List Mapping :=
  [⟨1, 0, "a", 0, 0, none⟩, ⟨-2, 4, "a", 0, 1, some "x"⟩, ⟨-1, 2, "a", 1, 0, none⟩]

/-- A mapping that comes behind those and counts back to the line before the first. -/
def tooFar : Mapping := ⟨-3, 0, "b", 0, 0, none⟩

theorem segmentLines_inPlace_iff_backwards :
    (∃ found final,
      (Index.reverse (.ofMappings [] backwards)).segmentLines ⟨[]⟩ = .ok (found, final) ∧
        found.length = 2 ∧ ¬∀ m ∈ backwards,
          m.StandsInPlace (.reverse (.ofMappings [] backwards)) final found) ∧
    (Index.reverse (.ofMappings [] (backwards ++ [tooFar]))).segmentLines ⟨[]⟩ =
      .error .lineOutOfRange := by
  have hfiled : (ReverseIndex.ofMappings [] backwards).mappings = backwards := by decide
  have hrest : (ReverseIndex.ofMappings [] (backwards ++ [tooFar])).mappings =
      backwards ++ [tooFar] := by decide
  constructor
  · have hbuilt : (Index.reverse (.ofMappings [] backwards)).Built :=
      ReverseIndex.built_ofMappings [] backwards
    obtain ⟨herror, hok, hplace⟩ := segmentLines_inPlace_iff hbuilt ⟨[]⟩
    have hrun : (Index.reverse (.ofMappings [] backwards)).segmentLines ⟨[]⟩ =
        .ok ([[.named 4 0 0 1 0], [.sourced 0 0 0 0, .sourced 2 0 1 0]], ⟨["x"]⟩) := by cbv
    refine ⟨_, _, hrun, (hok _ _ hrun).1.trans (by decide), fun hplaced => ?_⟩
    rcases hplace.mp (.inr ⟨_, _, hrun, fun m hm => hplaced m (hfiled ▸ hm)⟩) with hover | lines
    · cases hrun.symm.trans ((herror .lineOutOfRange).mpr ⟨rfl, hover⟩)
    · exact absurd (lines ⟨-1, 2, "a", 1, 0, none⟩ (by decide)) (by decide)
  · have hbuilt : (Index.reverse (.ofMappings [] (backwards ++ [tooFar]))).Built :=
      ReverseIndex.built_ofMappings [] (backwards ++ [tooFar])
    obtain ⟨herror, -⟩ := segmentLines_inPlace_iff hbuilt ⟨[]⟩
    exact (herror .lineOutOfRange).mpr ⟨rfl, backwards, tooFar, [], hrest, by decide⟩

/-- A mapping on the line before the first is put on the first line, behind the one that made it. -/
theorem segmentLines_countedBack :
    let index := ((ReverseIndex.ofSources ["a.js"]).add "a.js" 0 0 ⟨0, 0, none⟩).add "a.js" 1 0
      ⟨-1, 3, none⟩
    let found : List (List Segment) := [[.sourced 0 0 0 0, .sourced 3 0 1 0]]
    index.Built ∧ (Index.reverse index).segmentLines {} = .ok (found, {}) ∧
      ∃ m ∈ index.mappings, ¬m.StandsInPlace (.reverse index) {} found := by
  intro index found
  refine ⟨((ReverseIndex.Built.ofSources _).add ..).add .., by cbv,
    ⟨-1, 3, "a.js", 1, 0, none⟩, by decide, ?_⟩
  rintro ⟨line, hline, -⟩
  have hnegative : (-1 : Int) = line := hline
  omega

end Index

end SourceMaps
