import SourceMaps.Proofs.RoundTrip
import SourceMaps.Proofs.Steps

/-!
# Resolving the segments of a map

Decoding looks up the source and the name of every segment in the lists of the map. A map is decoded
exactly if its text is walked to the end and all of these are there; both indexes then hold the
mappings of the text in a stable sort. Otherwise the first thing that is wrong in the order of the
text is reported, in whichever direction the map is decoded.

## Main definitions

* `Segment.Resolvable`, `SourceMap.Resolvable`: the segments and maps that can be decoded.
* `Segment.StandsFor`: a segment and its mapping.
* `Segment.Violates`, `SourceMap.FirstViolation`: what is wrong with a segment, and with a map.

## Main statements

* `Segment.resolve_cases`: a segment is resolved or violates what the map requires.
* `resolveSteps_cases`: so are segments in a row, up to the first violation.
* `SourceMap.ofMap_sorted_or_refused`: which maps are decoded, to what, and why the others are not.
-/

namespace SourceMaps

/-! ### Positions in a list -/

theorem entryAt?_cases {α : Type} (items : List α) (position : Int) :
    (∃ (i : Nat) (a : α), position = i ∧ i < items.length ∧ items[i]? = some a ∧
      entryAt? items position = some a) ∨
    ¬(0 ≤ position ∧ position < items.length) ∧ entryAt? items position = none := by
  unfold entryAt?
  by_cases hneg : position < 0
  · rw [if_pos hneg]
    exact .inr ⟨by omega, rfl⟩
  · rw [if_neg hneg]
    obtain ⟨i, rfl⟩ := Int.eq_ofNat_of_zero_le (Int.not_lt.mp hneg)
    rw [Int.toNat_natCast]
    by_cases hi : i < items.length
    · have hget : items[i]? = some items[i] := List.getElem?_eq_getElem hi
      exact .inl ⟨i, items[i], rfl, hi, hget, hget⟩
    · exact .inr ⟨by omega, List.getElem?_eq_none (by omega)⟩

namespace SourceMap

theorem length_sourceNames (map : SourceMap) : map.sourceNames.length = map.sources.length :=
  List.length_map _

theorem source_of_sourceNames {map : SourceMap} {i : Nat} {found : Text}
    (h : map.sourceNames[i]? = some found) :
    ∃ source, map.sources[i]? = some source ∧ source.getD [] = found := by
  rw [sourceNames, List.getElem?_map] at h
  exact Option.map_eq_some_iff.mp h

end SourceMap

/-! ### One segment -/

namespace Segment

variable (map : SourceMap)

/-- Segments that a map can look up: they have an origin, its source is one of the sources of the
map, and the name, if there is one, is one of its names. -/
def Resolvable : Segment → Prop
  | .bare _ => False
  | .sourced _ source _ _ => 0 ≤ source ∧ source < map.sources.length
  | .named _ source _ _ name =>
    (0 ≤ source ∧ source < map.sources.length) ∧ 0 ≤ name ∧ name < map.names.length

/-- The mapping of a segment on a generated line. A source that is null is the empty text. -/
inductive StandsFor (generatedLine : Nat) : Segment → Mapping → Prop where
  | sourced {slot : Nat} {source : Option Text} (column line originalColumn : Int)
      (hsource : map.sources[slot]? = some source) :
      StandsFor generatedLine (.sourced column slot line originalColumn)
        ⟨generatedLine, column, source.getD [], line, originalColumn, none⟩
  | named {slot position : Nat} {source : Option Text} {name : Text}
      (column line originalColumn : Int) (hsource : map.sources[slot]? = some source)
      (hname : map.names[position]? = some name) :
      StandsFor generatedLine (.named column slot line originalColumn position)
        ⟨generatedLine, column, source.getD [], line, originalColumn, some name⟩

/-- What is wrong with a segment on a generated line. The source comes before the name. -/
inductive Violates (generatedLine : Nat) : Segment → Fault → Prop where
  | noOrigin (column : Int) :
      Violates generatedLine (.bare column) (.noOrigin generatedLine column)
  | source {segment : Segment} {source line originalColumn : Int}
      (horigin : segment.origin? = some (source, line, originalColumn))
      (hout : ¬(0 ≤ source ∧ source < map.sources.length)) :
      Violates generatedLine segment (.sourceOutOfRange source map.sources.length)
  | name {segment : Segment} {source line originalColumn name : Int}
      (horigin : segment.origin? = some (source, line, originalColumn))
      (hin : 0 ≤ source ∧ source < map.sources.length) (hname : segment.name? = some name)
      (hout : ¬(0 ≤ name ∧ name < map.names.length)) :
      Violates generatedLine segment (.nameOutOfRange name map.names.length)

variable {map}

theorem Violates.not_resolvable {generatedLine : Nat} {segment : Segment} {fault : Fault}
    (h : segment.Violates map generatedLine fault) : ¬segment.Resolvable map := by
  intro hgood
  cases h with
  | noOrigin column => exact hgood
  | source horigin hout =>
    cases segment <;> cases horigin
    · exact hout hgood
    · exact hout hgood.1
  | name horigin _ hname hout =>
    cases segment <;> cases horigin <;> cases hname
    exact hout hgood.2

theorem resolve_cases (map : SourceMap) (generatedLine : Nat) (segment : Segment) :
    (segment.Resolvable map ∧ ∃ m, segment.StandsFor map generatedLine m ∧
      segment.resolve map.sourceNames map.names generatedLine = .ok m) ∨
    ∃ fault, segment.Violates map generatedLine fault ∧
      segment.resolve map.sourceNames map.names generatedLine = .error fault := by
  have hlength := map.length_sourceNames
  cases segment with
  | bare column => exact .inr ⟨_, .noOrigin column, rfl⟩
  | sourced column source line originalColumn =>
    rw [resolve, resolveAt_eq]
    rcases entryAt?_cases map.sourceNames source with
      ⟨i, found, rfl, hi, hget, hfound⟩ | ⟨hout, hfound⟩
    · obtain ⟨entry, hentry, rfl⟩ := SourceMap.source_of_sourceNames hget
      rw [hfound]
      exact .inl ⟨⟨by omega, by omega⟩, _, .sourced column line originalColumn hentry, rfl⟩
    · rw [hfound, hlength]
      rw [hlength] at hout
      exact .inr ⟨_, .source rfl hout, rfl⟩
  | named column source line originalColumn name =>
    rw [resolve, resolveAt_eq]
    rcases entryAt?_cases map.sourceNames source with
      ⟨i, found, rfl, hi, hget, hfound⟩ | ⟨hout, hfound⟩
    · obtain ⟨entry, hentry, rfl⟩ := SourceMap.source_of_sourceNames hget
      have hin : (0 : Int) ≤ i ∧ (i : Int) < map.sources.length := ⟨by omega, by omega⟩
      rw [hfound]
      rcases entryAt?_cases map.names name with
        ⟨j, text, rfl, hj, hgetName, hname⟩ | ⟨hout, hname⟩
      · refine .inl ⟨⟨hin, by omega, by omega⟩, _,
          .named column line originalColumn hentry hgetName, ?_⟩
        simp only [hname]
      · refine .inr ⟨_, .name rfl hin rfl hout, ?_⟩
        simp only [hname]
    · rw [hfound, hlength]
      rw [hlength] at hout
      exact .inr ⟨_, .source rfl hout, rfl⟩

end Segment

/-! ### Segments in a row -/

theorem resolveSteps_cases (map : SourceMap) (steps : List (Nat × Segment)) :
    ((∀ step ∈ steps, step.2.Resolvable map) ∧ ∃ mappings,
      List.Forall₂ (fun step m => step.2.StandsFor map step.1 m) steps mappings ∧
        resolveSteps map.sourceNames map.names steps = .ok mappings) ∨
    ∃ before offending after fault, steps = before ++ offending :: after ∧
      (∀ step ∈ before, step.2.Resolvable map) ∧ offending.2.Violates map offending.1 fault ∧
      resolveSteps map.sourceNames map.names steps = .error fault := by
  induction steps with
  | nil => exact .inl ⟨by simp, [], .nil, rfl⟩
  | cons step rest ih =>
    obtain ⟨line, segment⟩ := step
    rcases segment.resolve_cases map line with ⟨hgood, m, hm, hresolve⟩ | ⟨fault, hbad, hresolve⟩
    · rcases ih with ⟨hrest, mappings, hmappings, hok⟩ |
        ⟨before, offending, after, fault, rfl, hbefore, hbad, herror⟩
      · refine .inl ⟨List.forall_mem_cons.mpr ⟨hgood, hrest⟩, m :: mappings, .cons hm hmappings, ?_⟩
        rw [resolveSteps, hresolve, ok_bind, hok]
        rfl
      · refine .inr ⟨(line, segment) :: before, offending, after, fault, rfl, ?_, hbad, ?_⟩
        · exact List.forall_mem_cons.mpr ⟨hgood, hbefore⟩
        · rw [resolveSteps, hresolve, ok_bind, herror]
          rfl
    · refine .inr ⟨[], (line, segment), rest, fault, rfl, by simp, hbad, ?_⟩
      rw [resolveSteps, hresolve]
      rfl

/-! ### Maps -/

namespace SourceMap

open MappingsText (walk)

/-- Maps whose text is walked to the end and whose segments can all be looked up. -/
structure Resolvable (map : SourceMap) : Prop where
  finished : (walk map.mappings).fault = none
  segments : ∀ step ∈ (walk map.mappings).steps, step.2.Resolvable map

/-- What is wrong first in the order of the text: a segment that cannot be looked up, or, behind
segments that can, what stops the walk. -/
inductive FirstViolation (map : SourceMap) (fault : Fault) : Prop where
  | segment {before after : List (Nat × Segment)} {offending : Nat × Segment}
      (hsteps : (walk map.mappings).steps = before ++ offending :: after)
      (hbefore : ∀ step ∈ before, step.2.Resolvable map)
      (hbad : offending.2.Violates map offending.1 fault)
  | text (hsteps : ∀ step ∈ (walk map.mappings).steps, step.2.Resolvable map)
      (hstop : (walk map.mappings).fault = some fault)

theorem FirstViolation.not_resolvable {map : SourceMap} {fault : Fault}
    (h : map.FirstViolation fault) : ¬map.Resolvable := by
  intro hgood
  cases h with
  | @segment before after offending hsteps _ hbad =>
    apply hbad.not_resolvable
    apply hgood.segments
    rw [hsteps]
    simp
  | text _ hstop =>
    rw [hgood.finished] at hstop
    cases hstop

theorem resolved_cases (map : SourceMap) :
    (map.Resolvable ∧ ∃ mappings,
      List.Forall₂ (fun step m => step.2.StandsFor map step.1 m) (walk map.mappings).steps
        mappings ∧ map.resolved = .ok mappings) ∨
    ∃ fault, map.FirstViolation fault ∧ map.resolved = .error fault := by
  unfold resolved Walk.resolve
  rcases resolveSteps_cases map (walk map.mappings).steps with
    ⟨hgood, mappings, hmappings, hok⟩ |
    ⟨before, offending, after, fault, hsteps, hbefore, hbad, herror⟩
  · rw [hok, ok_bind]
    cases hstop : (walk map.mappings).fault with
    | none => exact .inl ⟨⟨hstop, hgood⟩, mappings, hmappings, rfl⟩
    | some fault => exact .inr ⟨fault, .text hgood hstop, rfl⟩
  · rw [herror]
    exact .inr ⟨fault, .segment hsteps hbefore hbad, rfl⟩

/-- A map is decoded, in both directions, exactly if its text is walked to the end and all segments
can be looked up. Then both indexes have the sources of the map, null read as empty, and hold the
mappings of the text: one in the stable sort by generated line and column, the other in that by the
first slot of the source and the original line and column. Otherwise both directions report the
first violation in the order of the text, and that is a flaw of the format. -/
theorem ofMap_sorted_or_refused (map : SourceMap) :
    ((∃ index, ForwardIndex.ofMap map = .ok index) ↔ map.Resolvable) ∧
    ((∃ index, ReverseIndex.ofMap map = .ok index) ↔ map.Resolvable) ∧
    (¬map.Resolvable → ∃ fault : Fault, fault.kind = .format ∧ map.FirstViolation fault ∧
      ForwardIndex.ofMap map = .error fault ∧ ReverseIndex.ofMap map = .error fault) ∧
    (map.Resolvable → ∃ (stream : List Mapping) (forward : ForwardIndex) (reverse : ReverseIndex),
      List.Forall₂ (fun step m => step.2.StandsFor map step.1 m) (walk map.mappings).steps stream ∧
      ForwardIndex.ofMap map = .ok forward ∧ ReverseIndex.ofMap map = .ok reverse ∧
      forward.registry.sources = map.sources.map (·.getD []) ∧
      reverse.registry.sources = map.sources.map (·.getD []) ∧
      forward.mappings = sortOn Mapping.place stream ∧
      reverse.mappings =
        sortOn (fun m => m.original.rank ⟨map.sources.map (·.getD [])⟩) stream) := by
  rcases map.resolved_cases with ⟨hgood, stream, hstream, hok⟩ | ⟨fault, hfirst, herror⟩
  · have hforward : ForwardIndex.ofMap map = .ok (.ofMappings map.sourceNames stream) := by
      rw [ForwardIndex.ofMap, hok, map_ok]
    have hreverse : ReverseIndex.ofMap map = .ok (.ofMappings map.sourceNames stream) := by
      rw [ReverseIndex.ofMap, hok, map_ok]
    have hregistry := registerAll_resolved hok
    refine ⟨iff_of_true ⟨_, hforward⟩ hgood, iff_of_true ⟨_, hreverse⟩ hgood,
      fun hbad => absurd hgood hbad, fun _ => ?_⟩
    refine ⟨stream, _, _, hstream, hforward, hreverse, ?_, ?_, ?_, ?_⟩
    · rw [ForwardIndex.registry_ofMappings, hregistry]
      rfl
    · rw [ReverseIndex.registry_ofMappings, hregistry]
      rfl
    · exact ForwardIndex.mappings_ofMappings _ _
    · rw [ReverseIndex.mappings_ofMappings, ReverseIndex.registry_ofMappings, hregistry]
      rfl
  · have hbad := hfirst.not_resolvable
    have hforward : ForwardIndex.ofMap map = .error fault := by
      rw [ForwardIndex.ofMap, herror, map_error]
    have hreverse : ReverseIndex.ofMap map = .error fault := by
      rw [ReverseIndex.ofMap, herror, map_error]
    refine ⟨iff_of_false ?_ hbad, iff_of_false ?_ hbad, fun _ => ?_, fun hgood => absurd hgood hbad⟩
    · rintro ⟨index, hindex⟩
      rw [hforward] at hindex
      cases hindex
    · rintro ⟨index, hindex⟩
      rw [hreverse] at hindex
      cases hindex
    · exact ⟨fault, kind_of_resolved herror, hfirst, hforward, hreverse⟩

end SourceMap

end SourceMaps
