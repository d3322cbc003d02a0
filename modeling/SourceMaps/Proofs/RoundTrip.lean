import Mathlib
import SourceMaps.Proofs.Encode
import SourceMaps.Proofs.Invert

/-!
# Round trips through written maps

Reading a written map files the mappings of the index again, each carried to its new line and
source. Since all lines move by the same number, the order of an index survives.

## Main definitions

* `EncodeOptions.Faithful`: options that leave lines and sources as they are.

## Main statements

* `ForwardIndex.ofMap_encode`: what is read back from the map of a built index.
* `ReverseIndex.ofMap_encode_eq_invert`: the map of a reverse index is read back inverted.
-/

namespace SourceMaps

namespace EncodeOptions

/-- Options that leave lines and sources as they are. -/
structure Faithful (options : EncodeOptions) : Prop where
  verbatim : options.verbatim = true
  unstamped : options.stamped = false
  flush : options.preambleLineCount ≤ 0

variable {options : EncodeOptions} (surroundings : Surroundings)

theorem Faithful.nameSource_eq (h : options.Faithful) (source : Text) :
    options.nameSource surroundings source = source := by
  simp [nameSource, h.verbatim, h.unstamped]

theorem Faithful.carried_eq (h : options.Faithful) (m : Mapping) :
    options.carried surroundings m = m := by
  have hpreamble : max 0 options.preambleLineCount = 0 := max_eq_left h.flush
  simp [carried, h.nameSource_eq, hpreamble]

/-- Carried mappings keep their order. -/
theorem ascending_map_carried (options : EncodeOptions) {mappings : List Mapping}
    (h : Ascending Mapping.place mappings) :
    Ascending Mapping.place (mappings.map (options.carried surroundings)) := by
  refine List.pairwise_map.mpr (h.imp fun {a b} hab => ?_)
  refine Prod.Lex.toLex_le_toLex.mpr ?_
  rcases Prod.Lex.toLex_le_toLex.mp hab with hlt | ⟨heq, hle⟩
  · exact .inl (Int.add_lt_add_right hlt _)
  · exact .inr ⟨congrArg (· + _) heq, hle⟩

end EncodeOptions

/-! ### Where built indexes come from -/

/-- The mappings of a map have sources of the map, so filing them registers nothing new. -/
theorem SourceMap.registerAll_resolved {map : SourceMap} {mappings : List Mapping}
    (h : map.resolved = .ok mappings) :
    Registry.registerAll ⟨map.sourceNames⟩ (mappings.map (·.source)) = ⟨map.sourceNames⟩ := by
  refine Registry.registerAll_of_mem fun s hs => ?_
  obtain ⟨m, hm, rfl⟩ := List.mem_map.mp hs
  exact (mapping_of_resolved h m hm).1

/-- Decoding a map builds an index without negative lines. -/
theorem ForwardIndex.built_ofMap {map : SourceMap} {index : ForwardIndex}
    (h : ofMap map = .ok index) : index.Built ∧ ∀ m ∈ index.mappings, 0 ≤ m.generatedLine := by
  obtain ⟨mappings, hmappings, rfl⟩ := map_eq_ok_iff.mp h
  refine ⟨built_ofMappings _ _, fun m hm => ?_⟩
  rw [mappings_ofMappings, mem_sortOn] at hm
  exact (SourceMap.mapping_of_resolved hmappings m hm).2

/-- Inverting builds an index, with the lines of the mappings there were. -/
theorem ReverseIndex.built_invert (index : ReverseIndex) :
    index.invert.Built ∧ ∀ m, m ∈ index.invert.mappings ↔ m ∈ index.mappings := by
  refine ⟨ForwardIndex.built_ofMappings _ _, fun m => ?_⟩
  rw [invert, ForwardIndex.mappings_ofMappings, mem_sortOn]

/-! ### Reading back -/

/-- Reading back a written map files the carried mappings under the new names of the sources. -/
theorem Index.ofMap_of_encode (index : Index) {options : EncodeOptions}
    {surroundings : Surroundings} {map : SourceMap}
    (registered : ∀ m ∈ index.mappings, m.source ∈ index.registry.sources)
    (lines : ∀ m ∈ index.mappings, 0 ≤ m.generatedLine)
    (written : index.encode options surroundings = .ok map) :
    ForwardIndex.ofMap map = .ok (ForwardIndex.ofMappings
      (index.sources.map (options.nameSource surroundings))
      ((sortOn Mapping.place index.mappings).map (options.carried surroundings))) := by
  rw [ForwardIndex.ofMap, resolved_of_encode registered lines written,
    sourceNames_of_encode written, map_ok]

namespace ForwardIndex

/-- The map of a built index is read back as an index with the sources under their new names and
with every mapping carried, in the same order. Options that leave lines and sources as they are give
the index itself. -/
theorem ofMap_encode {index : ForwardIndex} (built : index.Built)
    (lines : ∀ m ∈ index.mappings, 0 ≤ m.generatedLine) (options : EncodeOptions)
    (surroundings : Surroundings) {map : SourceMap}
    (written : (Index.forward index).encode options surroundings = .ok map) :
    ∃ read, ofMap map = .ok read ∧
      read.registry.sources = index.registry.sources.map (options.nameSource surroundings) ∧
      read.mappings = index.mappings.map (options.carried surroundings) ∧
      (options.Faithful → read = index) := by
  have hcoherent := built.coherent
  have hread : ofMap map = .ok (ofMappings
      (index.registry.sources.map (options.nameSource surroundings))
      ((sortOn Mapping.place index.mappings).map (options.carried surroundings))) :=
    (Index.forward index).ofMap_of_encode hcoherent.registered lines written
  -- The mappings of a forward index follow their places, so writing does not move them.
  rw [sortOn_eq_self index.ascending_mappings] at hread
  refine ⟨_, hread, ?_, ?_, fun hfaithful => ?_⟩
  · rw [registry_ofMappings, Registry.registerAll_of_mem fun s hs => ?_]
    obtain ⟨m, hm, rfl⟩ := by simpa using hs
    exact List.mem_map_of_mem (hcoherent.registered m hm)
  · rw [mappings_ofMappings]
    exact sortOn_eq_self (options.ascending_map_carried surroundings index.ascending_mappings)
  · have hnames : options.nameSource surroundings = id :=
      funext (hfaithful.nameSource_eq surroundings)
    have hcarried : options.carried surroundings = id := funext (hfaithful.carried_eq surroundings)
    rw [hnames, hcarried, List.map_id, List.map_id]
    exact hcoherent.eq_ofMappings

/-- An index with two origins at one position, an empty name and a line without mappings. -/
def fannedOut : ForwardIndex :=
  (((ofSources ["dir/a", "b"]).add 0 4 ⟨"b", 1, -2, some ""⟩).add 0 4 ⟨"dir/a", 3, 0, none⟩).add
    2 0 ⟨"b", 0, 0, some "n"⟩

theorem ofMap_encode_fannedOut : ∃ map read,
    (Index.forward fannedOut).encode { preambleLineCount := 1 } {} = .ok map ∧
    ofMap map = .ok read ∧
    read.registry.sources = ["a", "b"] ∧
    read.mappings =
      [⟨1, 4, "b", 1, -2, some ""⟩, ⟨1, 4, "a", 3, 0, none⟩, ⟨3, 0, "b", 0, 0, some "n"⟩] := by
  have built : fannedOut.Built := (((Built.ofSources _).add _ _ _).add _ _ _).add _ _ _
  have lines : ∀ m ∈ fannedOut.mappings, 0 ≤ m.generatedLine := by decide
  have written : (Index.forward fannedOut).encode { preambleLineCount := 1 } {} = .ok {
      sources := [some "a", some "b"]
      names := ["", "n"]
      mappings := ";ICCFA,ADEE;;ACHAC" } := by cbv
  obtain ⟨read, hread, hsources, hmappings, -⟩ := ofMap_encode built lines _ _ written
  exact ⟨_, read, written, hread, hsources.trans (by decide), hmappings.trans (by decide)⟩

end ForwardIndex

namespace ReverseIndex

/-- The map of a reverse index, written with options that leave lines and sources as they are, is
read back as the inverted index. That has the same sources, and its walk is the stable sort of the
walk through the reverse index by generated position. -/
theorem ofMap_encode_eq_invert {index : ReverseIndex}
    (lines : ∀ m ∈ index.mappings, 0 ≤ m.generatedLine) {options : EncodeOptions}
    (faithful : options.Faithful) (surroundings : Surroundings) {map : SourceMap}
    (written : (Index.reverse index).encode options surroundings = .ok map) :
    ForwardIndex.ofMap map = .ok index.invert ∧
      index.invert.registry = index.registry ∧
      index.invert.mappings = sortOn Mapping.place index.mappings := by
  have hread : ForwardIndex.ofMap map = .ok (.ofMappings
      (index.registry.sources.map (options.nameSource surroundings))
      ((sortOn Mapping.place index.mappings).map (options.carried surroundings))) :=
    (Index.reverse index).ofMap_of_encode index.registered_mappings lines written
  have hnames : options.nameSource surroundings = id :=
    funext (faithful.nameSource_eq surroundings)
  have hcarried : options.carried surroundings = id := funext (faithful.carried_eq surroundings)
  have hregistry := index.registry_invert
  have hmappings : index.invert.mappings = sortOn Mapping.place index.mappings :=
    ForwardIndex.mappings_ofMappings _ _
  -- An inverted index is built, so filing its walk again gives it back.
  have hself := index.built_invert.1.coherent.eq_ofMappings
  rw [hregistry, hmappings] at hself
  rw [hnames, hcarried, List.map_id, List.map_id, hself] at hread
  exact ⟨hread, hregistry, hmappings⟩

/-- Two files with mappings to one generated position, out of the order of the generated columns and
with names that are met in another order than they are written in. -/
def entangled : ReverseIndex :=
  ((((ofSources ["b", "a", "b"]).add "a" 0 0 ⟨1, 0, some "x"⟩).add "b" 2 1 ⟨0, 3, some "y"⟩).add
    "b" 2 1 ⟨0, 0, none⟩).add "a" 0 5 ⟨0, 3, some ""⟩

theorem ofMap_encode_eq_invert_entangled : ∃ map,
    (Index.reverse entangled).encode { verbatim := true } {} = .ok map ∧
    ForwardIndex.ofMap map = .ok entangled.invert ∧
    entangled.invert.mappings =
      [⟨0, 0, "b", 2, 1, none⟩, ⟨0, 3, "b", 2, 1, some "y"⟩, ⟨0, 3, "a", 0, 5, some ""⟩,
        ⟨1, 0, "a", 0, 0, some "x"⟩] := by
  have lines : ∀ m ∈ entangled.mappings, 0 ≤ m.generatedLine := by decide
  have written : (Index.reverse entangled).encode { verbatim := true } {} = .ok {
      sources := [some "b", some "a", some "b"]
      names := ["y", "x", ""]
      mappings := "AAEC,GAAAA,ACFIE;AAALD" } := by cbv
  have faithful : EncodeOptions.Faithful { verbatim := true } := ⟨rfl, rfl, le_refl _⟩
  obtain ⟨hread, -, hmappings⟩ := ofMap_encode_eq_invert lines faithful {} written
  exact ⟨_, written, hread, hmappings.trans (by cbv)⟩

end ReverseIndex

end SourceMaps
