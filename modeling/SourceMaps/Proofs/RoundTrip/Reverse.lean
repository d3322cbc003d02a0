import SourceMaps.Proofs.Index.Built
import SourceMaps.Proofs.MappingsText.Respelling
import SourceMaps.Proofs.Resolution

/-!
# Round trips of reverse indexes

The mappings of a reverse index are written in the order of their generated positions and filed
again under their origins. Sorting commutes with taking the mappings of one origin, so what is read
back has the same keys, and at every origin the stable sort of what was there. An index that was
decoded from a map with ascending columns has all of this in order already.

## Main definitions

* `GeneratedPosition.place`: generated positions, ordered lexicographically.
* `ReverseIndex.resorted`: an index filed anew in the order of generated positions.
* `MappingsText.ColumnsAscend`: texts whose columns never decrease within a line.

## Main statements

* `ReverseIndex.lookup_resorted`, `ReverseIndex.keys_resorted`: what filing anew changes.
* `ReverseIndex.ofMap_of_encode`: a written map is read back as the index filed anew.
* `MappingsText.ascending_steps`: the steps through a text with ascending columns.
* `ReverseIndex.ofMap_encode_resorted`: what is read back from the map of a reverse index.
-/

namespace SourceMaps

/-- A generated position, ordered lexicographically. -/
def GeneratedPosition.place (p : GeneratedPosition) : Int ×ₗ Int := toLex (p.line, p.column)

namespace ReverseIndex

variable {index : ReverseIndex}

/-! ### Filing in the order of generated positions -/

/-- The mappings of an index filed anew in the order of their generated positions. -/
def resorted (index : ReverseIndex) : ReverseIndex :=
  ofMappings index.registry.sources (sortOn Mapping.place index.mappings)

theorem full_resorted (index : ReverseIndex) : index.resorted.Full := (built_ofMappings _ _).full

theorem registry_resorted (index : ReverseIndex) : index.resorted.registry = index.registry := by
  rw [resorted, registry_ofMappings]
  refine Registry.registerAll_of_mem fun s hs => ?_
  obtain ⟨m, hm, rfl⟩ := List.mem_map.mp hs
  exact index.registered_mappings m (mem_sortOn.mp hm)

/-- The mappings of one origin come in the order of their generated positions, and nothing else
changes. -/
theorem lookup_resorted (index : ReverseIndex) (s : Text) (l c : Int) :
    index.resorted.lookup s l c = sortOn GeneratedPosition.place (index.lookup s l c) := by
  -- Sorting commutes with taking the mappings of one origin, and with forgetting that origin.
  have hplace (p : GeneratedPosition) : (Mapping.ofGenerated s l c p).place = p.place := rfl
  rw [resorted, lookup_ofMappings, filter_sortOn, filter_mappings, ← map_sortOn hplace,
    List.map_map]
  exact List.map_id _

theorem resorted_eq_iff (built : index.Built) :
    index.resorted = index ↔
      ∀ s l c, Ascending GeneratedPosition.place (index.lookup s l c) := by
  simp only [← sortOn_eq_self_iff, ← lookup_resorted]
  constructor
  · intro heq s l c
    rw [heq]
  · exact index.full_resorted.ext built.full index.registry_resorted

theorem keys_resorted (built : index.Built) :
    index.resorted.keys = index.keys ∧
      (∀ s, (index.resorted.fileOf s).keys = (index.fileOf s).keys) ∧
      ∀ s l, ((index.resorted.fileOf s).line l).keys = ((index.fileOf s).line l).keys := by
  refine index.full_resorted.keys_eq built.full index.registry_resorted fun s l c => ?_
  rw [lookup_resorted, Ne, sortOn_eq_nil_iff]

theorem ofMap_of_encode (lines : ∀ m ∈ index.mappings, 0 ≤ m.generatedLine)
    {options : EncodeOptions} (faithful : options.Faithful) {surroundings : Surroundings}
    {map : SourceMap} (written : (Index.reverse index).encode options surroundings = .ok map) :
    ofMap map = .ok index.resorted := by
  have hnames : options.nameSource surroundings = id :=
    funext (faithful.nameSource_eq surroundings)
  have hcarried : options.carried surroundings = id := funext (faithful.carried_eq surroundings)
  have hsources : map.sourceNames = index.registry.sources := by
    rw [Index.sourceNames_of_encode written, hnames, List.map_id]
    rfl
  have hregistered : ∀ m ∈ (Index.reverse index).mappings, m.source ∈ index.registry.sources :=
    index.registered_mappings
  have hresolved := Index.resolved_of_encode hregistered lines written
  rw [hcarried, List.map_id] at hresolved
  rw [ofMap, hresolved, hsources, map_ok]
  rfl

end ReverseIndex

/-! ### Maps with ascending columns -/

namespace MappingsText

/-- The line and the column of a step, ordered lexicographically. -/
def place (step : Nat × Segment) : Int ×ₗ Int := toLex ((step.1 : Int), step.2.column)

/-- Texts whose columns never decrease within a line. -/
def ColumnsAscend (text : Text) : Prop :=
  (walk text).steps.Pairwise fun a b => a.1 = b.1 → a.2.column ≤ b.2.column

instance (text : Text) : Decidable (ColumnsAscend text) :=
  inferInstanceAs (Decidable ((walk text).steps.Pairwise _))

theorem pairwise_numbered {α : Type} (number : Nat) (lines : List (List α)) :
    (numbered number lines).Pairwise fun a b => a.1 ≤ b.1 := by
  induction lines generalizing number with
  | nil => exact List.Pairwise.nil
  | cons line rest ih =>
    refine List.pairwise_append.mpr ⟨?_, ih (number + 1), fun a ha b hb => ?_⟩
    · apply List.pairwise_map.mpr
      exact List.pairwise_of_forall_mem_list fun _ _ _ _ => Nat.le_refl number
    · obtain ⟨_, -, rfl⟩ := List.mem_map.mp ha
      exact Nat.le_of_succ_le (le_of_mem_numbered hb)

/-- A text with ascending columns that is walked to the end has its steps in the order of lines and
columns. -/
theorem ascending_steps {text : Text} (finished : (walk text).fault = none)
    (h : ColumnsAscend text) : Ascending place (walk text).steps := by
  obtain ⟨segments, -, hsteps, -⟩ := writeLines_of_walkLines finished
  have hlines : (walk text).steps.Pairwise fun a b => a.1 ≤ b.1 := by
    rw [walk, hsteps]
    exact pairwise_numbered 0 segments
  refine (hlines.and h).imp ?_
  rintro a b ⟨hle, hcolumn⟩
  refine Prod.Lex.toLex_le_toLex.mpr ?_
  rcases Nat.lt_or_eq_of_le hle with hlt | heq
  · exact .inl (Int.ofNat_lt.mpr hlt)
  · exact .inr ⟨congrArg Int.ofNat heq, hcolumn heq⟩

end MappingsText

theorem map_place_eq {map : SourceMap} {steps : List (Nat × Segment)} {mappings : List Mapping}
    (h : List.Forall₂ (fun step m => step.2.StandsFor map step.1 m) steps mappings) :
    steps.map MappingsText.place = mappings.map Mapping.place := by
  induction h with
  | nil => rfl
  | @cons step m _ _ hm _ ih =>
    have hplace : MappingsText.place step = m.place := by
      obtain ⟨line, segment⟩ := step
      cases hm <;> rfl
    rw [List.map_cons, List.map_cons, hplace, ih]

/-- The mappings of a map with ascending columns are in the order of their generated positions. -/
theorem SourceMap.ascending_resolved {map : SourceMap} {mappings : List Mapping}
    (h : map.resolved = .ok mappings) (columns : MappingsText.ColumnsAscend map.mappings) :
    Ascending Mapping.place mappings := by
  rcases map.resolved_cases with ⟨hgood, found, hfound, hok⟩ | ⟨fault, -, herror⟩
  · rw [h] at hok
    cases hok
    have hsteps := List.pairwise_map.mpr (MappingsText.ascending_steps hgood.finished columns)
    rw [map_place_eq hfound] at hsteps
    exact List.pairwise_map.mp hsteps
  · rw [h] at herror
    cases herror

namespace ReverseIndex

/-- Decoding a map with ascending columns builds an index without negative lines whose lists are all
in the order of generated positions. -/
theorem built_ofMap {map : SourceMap} {index : ReverseIndex} (h : ofMap map = .ok index) :
    index.Built ∧ (∀ m ∈ index.mappings, 0 ≤ m.generatedLine) ∧
      (MappingsText.ColumnsAscend map.mappings →
        ∀ s l c, Ascending GeneratedPosition.place (index.lookup s l c)) := by
  obtain ⟨mappings, hmappings, rfl⟩ := map_eq_ok_iff.mp h
  refine ⟨built_ofMappings _ _, fun m hm => ?_, fun columns s l c => ?_⟩
  · rw [mappings_ofMappings, mem_sortOn] at hm
    exact (SourceMap.mapping_of_resolved hmappings m hm).2
  · rw [lookup_ofMappings]
    exact List.pairwise_map.mpr ((SourceMap.ascending_resolved hmappings columns).filter _)

/-! ### Reading back -/

/-- A built reverse index that was written with options that leave lines and sources as they are is
read back with the same sources and the same keys at every level, and at every origin with the
stable sort by generated position of what was there. So the index itself is read back exactly if all
its lists are in that order, as they are if it was decoded from a map with ascending columns. -/
theorem ofMap_encode_resorted :
    (∀ index : ReverseIndex, index.Built → (∀ m ∈ index.mappings, 0 ≤ m.generatedLine) →
      ∀ options : EncodeOptions, options.Faithful → ∀ surroundings map,
        (Index.reverse index).encode options surroundings = .ok map →
        ∃ read, ofMap map = .ok read ∧ read.registry = index.registry ∧
          (read.keys = index.keys ∧ (∀ s, (read.fileOf s).keys = (index.fileOf s).keys) ∧
            ∀ s l, ((read.fileOf s).line l).keys = ((index.fileOf s).line l).keys) ∧
          (∀ s l c, read.lookup s l c = sortOn GeneratedPosition.place (index.lookup s l c)) ∧
          (read = index ↔ ∀ s l c, Ascending GeneratedPosition.place (index.lookup s l c))) ∧
    ∀ map index, ofMap map = .ok index → MappingsText.ColumnsAscend map.mappings →
      index.Built ∧ (∀ m ∈ index.mappings, 0 ≤ m.generatedLine) ∧
        ∀ s l c, Ascending GeneratedPosition.place (index.lookup s l c) := by
  refine ⟨fun index built lines options faithful surroundings map written => ?_,
    fun map index hread columns => ?_⟩
  · exact ⟨_, ofMap_of_encode lines faithful written, index.registry_resorted,
      keys_resorted built, index.lookup_resorted, resorted_eq_iff built⟩
  · obtain ⟨built, lines, hascending⟩ := built_ofMap hread
    exact ⟨built, lines, hascending columns⟩

/-- Two mappings of one origin change places, and what was read has every list in order. -/
theorem ofMap_encode_resorted_entangled : ∃ map read,
    (Index.reverse entangled).encode { verbatim := true } {} = .ok map ∧
    ofMap map = .ok read ∧ read.keys = ["b", "a"] ∧
    entangled.lookup "b" 2 1 = [⟨0, 3, some "y"⟩, ⟨0, 0, none⟩] ∧
    read.lookup "b" 2 1 = [⟨0, 0, none⟩, ⟨0, 3, some "y"⟩] ∧
    ∀ s l c, Ascending GeneratedPosition.place (read.lookup s l c) := by
  obtain ⟨hencoded, hdecoded⟩ := ofMap_encode_resorted
  have built : entangled.Built :=
    ((((Built.ofSources _).add _ _ _ _).add _ _ _ _).add _ _ _ _).add _ _ _ _
  have lines : ∀ m ∈ entangled.mappings, 0 ≤ m.generatedLine := by decide
  have faithful : EncodeOptions.Faithful { verbatim := true } := ⟨rfl, rfl, le_refl _⟩
  have written : (Index.reverse entangled).encode { verbatim := true } {} = .ok {
      sources := [some "b", some "a", some "b"]
      names := ["y", "x", ""]
      mappings := "AAEC,GAAAA,ACFIE;AAALD" } := by cbv
  have columns : MappingsText.ColumnsAscend "AAEC,GAAAA,ACFIE;AAALD" :=
    of_decide_eq_true (by cbv)
  obtain ⟨read, hread, -, ⟨hkeys, -⟩, hlookup, -⟩ :=
    hencoded entangled built lines _ faithful {} _ written
  obtain ⟨-, -, hascending⟩ := hdecoded _ read hread columns
  exact ⟨_, read, written, hread, hkeys.trans (by decide), by decide,
    (hlookup "b" 2 1).trans (by cbv), hascending⟩

end ReverseIndex

end SourceMaps
