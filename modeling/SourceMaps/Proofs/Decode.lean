import SourceMaps.Decode
import SourceMaps.Proofs.Outcome

/-!
# Decoding maps: faults and mappings

Whatever stops the decoding of a map is a flaw of its format. What decoding finds are mappings from
sources of the map, on lines that are counted from zero.

## Main statements

* `SourceMap.kind_of_resolved`: every fault of decoding is one of format.
* `resolveAt_eq`: when a segment has a mapping, and which.
* `SourceMap.mapping_of_resolved`: the mappings of a map.
-/

namespace SourceMaps

/-! ### Faults -/

/-- A text that spells no integers is malformed. -/
theorem Vlq.kind_of_decodeFrom {whole text : Text} {offset raw shift : Nat} {fault : Fault}
    (h : decodeFrom whole offset raw shift text = .error fault) : fault.kind = .format := by
  induction text generalizing offset raw shift with
  | nil =>
    rw [decodeFrom] at h
    split at h
    · cases h
    · cases h
      rfl
  | cons c rest ih =>
    rw [decodeFrom] at h
    split at h
    · cases h
      rfl
    · simp only at h
      split at h
      · exact ih h
      · split at h
        · exact ih (map_eq_error_iff.mp h)
        · cases h
          rfl

theorem Segment.kind_of_ofFields {fields : List Int} {fault : Fault}
    (h : ofFields fields = .error fault) : fault.kind = .format := by
  unfold ofFields at h
  split at h <;> cases h
  rfl

namespace MappingsText

theorem kind_of_readSegment {line : Nat} {piece : Text} {fault : Fault}
    (h : readSegment line piece = .error fault) : fault.kind = .format := by
  unfold readSegment at h
  split at h
  · cases h
    rfl
  · rcases bind_eq_error_iff.mp h with h | ⟨fields, -, h⟩
    · exact Vlq.kind_of_decodeFrom h
    · exact Segment.kind_of_ofFields h

/-- What stops the walk on a line is malformed, or stops it further on. -/
theorem kind_of_walkPieces {line : Nat} {onward : Cursor → Walk} {cursor : Cursor}
    {pieces : List Text} {fault : Fault}
    (honward : ∀ c, (onward c).fault = some fault → fault.kind = .format)
    (h : (walkPieces line onward cursor pieces).fault = some fault) : fault.kind = .format := by
  induction pieces generalizing cursor with
  | nil => exact honward cursor h
  | cons piece rest ih =>
    rw [walkPieces] at h
    split at h
    · next stop hread =>
      obtain rfl : stop = fault := by simpa [Walk.stopped] using h
      exact kind_of_readSegment hread
    · exact ih h

theorem kind_of_walkLines {number : Nat} {cursor : Cursor} {lines : List Text} {fault : Fault}
    (h : (walkLines number cursor lines).fault = some fault) : fault.kind = .format := by
  induction lines generalizing number cursor with
  | nil => cases h
  | cons line rest ih => exact kind_of_walkPieces (fun c hc => ih hc) h

end MappingsText

/-- A segment has a mapping if its source is among those of the map and its name, if it has one, is
among the names; the source is looked up first. -/
theorem resolveAt_eq (sources names : List Text) (generatedLine : Nat)
    (column source line originalColumn : Int) (name : Option Int) :
    resolveAt sources names generatedLine column source line originalColumn name =
      match entryAt? sources source, name with
      | none, _ => .error (.sourceOutOfRange source sources.length)
      | some found, none => .ok ⟨generatedLine, column, found, line, originalColumn, none⟩
      | some found, some index =>
        match entryAt? names index with
        | none => .error (.nameOutOfRange index names.length)
        | some text => .ok ⟨generatedLine, column, found, line, originalColumn, some text⟩ := by
  unfold resolveAt
  cases entryAt? sources source with
  | none => rfl
  | some found =>
    cases name with
    | none => rfl
    | some index => cases hname : entryAt? names index <;> simp only [hname] <;> rfl

theorem Segment.kind_of_resolve {sources names : List Text} {line : Nat} {segment : Segment}
    {fault : Fault} (h : segment.resolve sources names line = .error fault) :
    fault.kind = .format := by
  have hat (column source originalLine originalColumn : Int) (name : Option Int)
      (h : resolveAt sources names line column source originalLine originalColumn name =
        .error fault) : fault.kind = .format := by
    rw [resolveAt_eq] at h
    split at h
    · cases h
      rfl
    · cases h
    · split at h <;> cases h
      rfl
  cases segment with
  | bare column =>
    cases h
    rfl
  | sourced column source originalLine originalColumn => exact hat _ _ _ _ none h
  | named column source originalLine originalColumn name => exact hat _ _ _ _ (some name) h

theorem kind_of_resolveSteps {sources names : List Text} {steps : List (Nat × Segment)}
    {fault : Fault} (h : resolveSteps sources names steps = .error fault) :
    fault.kind = .format := by
  induction steps with
  | nil => cases h
  | cons step rest ih =>
    rw [resolveSteps] at h
    rcases bind_eq_error_iff.mp h with h | ⟨mapping, -, h⟩
    · exact Segment.kind_of_resolve h
    · rcases bind_eq_error_iff.mp h with h | ⟨mappings, -, h⟩
      · exact ih h
      · cases h

/-- What stops the decoding of a map is malformed. -/
theorem SourceMap.kind_of_resolved {map : SourceMap} {fault : Fault}
    (h : map.resolved = .error fault) : fault.kind = .format := by
  rcases bind_eq_error_iff.mp h with h | ⟨mappings, -, h⟩
  · exact kind_of_resolveSteps h
  · split at h
    · cases h
    · next stop hstop =>
      cases h
      exact MappingsText.kind_of_walkLines hstop

/-! ### Mappings -/

theorem mem_of_entryAt? {α : Type} {items : List α} {position : Int} {a : α}
    (h : entryAt? items position = some a) : a ∈ items := by
  unfold entryAt? at h
  split at h
  · cases h
  · exact List.mem_of_getElem? h

/-- The source of a mapping is among those that its segment can refer to, and its line is the
number of a line. -/
theorem Segment.mapping_of_resolve {sources names : List Text} {line : Nat} {segment : Segment}
    {m : Mapping} (h : segment.resolve sources names line = .ok m) :
    m.source ∈ sources ∧ m.generatedLine = line := by
  have hat (column source originalLine originalColumn : Int) (name : Option Int)
      (h : resolveAt sources names line column source originalLine originalColumn name = .ok m) :
      m.source ∈ sources ∧ m.generatedLine = line := by
    rw [resolveAt_eq] at h
    cases hsource : entryAt? sources source with
    | none => simp [hsource] at h
    | some found =>
      have hfound := mem_of_entryAt? hsource
      simp only [hsource] at h
      cases name with
      | none =>
        cases h
        exact ⟨hfound, rfl⟩
      | some index =>
        simp only at h
        split at h <;> cases h
        exact ⟨hfound, rfl⟩
  cases segment with
  | bare column => cases h
  | sourced column source originalLine originalColumn => exact hat _ _ _ _ none h
  | named column source originalLine originalColumn name => exact hat _ _ _ _ (some name) h

theorem mapping_of_resolveSteps {sources names : List Text} {steps : List (Nat × Segment)}
    {mappings : List Mapping} (h : resolveSteps sources names steps = .ok mappings) :
    ∀ m ∈ mappings, m.source ∈ sources ∧ 0 ≤ m.generatedLine := by
  induction steps generalizing mappings with
  | nil =>
    cases h
    simp
  | cons step rest ih =>
    rw [resolveSteps] at h
    obtain ⟨first, hfirst, h⟩ := bind_eq_ok_iff.mp h
    obtain ⟨others, hothers, h⟩ := bind_eq_ok_iff.mp h
    cases h
    intro m hm
    rcases List.mem_cons.mp hm with rfl | hm
    · obtain ⟨hsource, hline⟩ := Segment.mapping_of_resolve hfirst
      exact ⟨hsource, by omega⟩
    · exact ih hothers m hm

/-- The mappings of a map come from its sources and lie on lines. -/
theorem SourceMap.mapping_of_resolved {map : SourceMap} {mappings : List Mapping}
    (h : map.resolved = .ok mappings) :
    ∀ m ∈ mappings, m.source ∈ map.sourceNames ∧ 0 ≤ m.generatedLine := by
  obtain ⟨found, hfound, h⟩ := bind_eq_ok_iff.mp h
  split at h
  · cases h
    exact mapping_of_resolveSteps hfound
  · cases h

end SourceMaps
