import SourceMaps.Proofs.Document
import SourceMaps.Proofs.Resolution

/-!
# Writing a map anew

A map that is decoded and encoded again keeps its sources, contents, file and number of lines, but
not its source root. What is written decodes to the same index, so writing it once more changes
nothing. If the map had a JSON form, so has what is written.

## Main definitions

* `SourceMap.reencode`: decodes a map and encodes it again.

## Main statements

* `SourceMap.ofMap_of_reencode`: what was written anew has the index of the map.
* `SourceMap.frame_of_reencode`: what it has outside its mappings.
* `SourceMap.reencode_of_reencode`: writing it once more gives the same map.
* `SourceMap.portable_of_reencode`: it has a JSON form.
-/

namespace SourceMaps

/-! ### Names -/

namespace NameTable

theorem mem_of_mem_note {table : NameTable} {asked : Option Text} {name : Text}
    (h : name ∈ (table.note asked).items) : name ∈ table.items ∨ asked = some name := by
  cases asked with
  | none => exact .inl h
  | some first =>
    by_cases hfirst : first ∈ table.items
    · rw [note, intern_of_mem hfirst] at h
      exact .inl h
    · rw [note, intern_of_notMem hfirst] at h
      refine (List.mem_append.mp h).imp_right fun hname => ?_
      rw [List.mem_singleton.mp hname]

/-- The names of a table were there before or were asked for. -/
theorem mem_of_mem_noteAll {table : NameTable} {names : List (Option Text)} {name : Text}
    (h : name ∈ (table.noteAll names).items) : name ∈ table.items ∨ some name ∈ names := by
  induction names generalizing table with
  | nil => exact .inl h
  | cons first names ih =>
    rcases ih h with h | h
    · rcases mem_of_mem_note h with h | rfl
      · exact .inl h
      · exact .inr List.mem_cons_self
    · exact .inr (List.mem_cons_of_mem first h)

end NameTable

theorem Segment.StandsFor.name_mem {map : SourceMap} {line : Nat} {segment : Segment} {m : Mapping}
    (h : segment.StandsFor map line m) : ∀ name ∈ m.name, name ∈ map.names := by
  cases h with
  | sourced => exact nofun
  | named _ _ _ _ hname =>
    rintro _ ⟨⟩
    exact List.mem_of_getElem? hname

theorem name_mem_of_forall₂ {map : SourceMap} {steps : List (Nat × Segment)}
    {mappings : List Mapping}
    (h : List.Forall₂ (fun step m => step.2.StandsFor map step.1 m) steps mappings) :
    ∀ m ∈ mappings, ∀ name ∈ m.name, name ∈ map.names := by
  induction h with
  | nil => exact nofun
  | cons hm _ ih => exact List.forall_mem_cons.mpr ⟨hm.name_mem, ih⟩

/-- The mappings of a map have names of the map. -/
theorem SourceMap.name_mem_of_resolved {map : SourceMap} {mappings : List Mapping}
    (h : map.resolved = .ok mappings) : ∀ m ∈ mappings, ∀ name ∈ m.name, name ∈ map.names := by
  rcases map.resolved_cases with ⟨-, found, hstream, hok⟩ | ⟨fault, -, herror⟩
  · rw [h] at hok
    cases hok
    exact name_mem_of_forall₂ hstream
  · rw [h] at herror
    cases herror

/-! ### Mappings texts -/

namespace MappingsText

theorem isAscii_of_mem_alphabet {text : Text} (h : ∀ c ∈ text, c ∈ Vlq.alphabet) :
    text.IsAscii := by
  have hall : ∀ c ∈ Vlq.alphabet, 0 < c.toNat ∧ c.toNat < 0x80 := by decide
  exact fun c hc => hall c (h c hc)

theorem isAscii_of_writeLines {cursor : Cursor} {segments : List (List Segment)}
    {lines : List Text} (h : writeLines cursor segments = .ok lines) :
    ∀ line ∈ lines, line.IsAscii := by
  induction segments generalizing cursor lines with
  | nil =>
    cases h
    exact nofun
  | cons first rest ih =>
    obtain ⟨spelled, after, others, hspelled, hothers, rfl⟩ := writeLines_cons_iff.mp h
    refine List.forall_mem_cons.mpr ⟨Text.isAscii_join (by decide) fun piece hpiece => ?_,
      ih hothers⟩
    exact isAscii_of_mem_alphabet (isSpelling_of_writeSegments hspelled piece hpiece).2

/-- A mappings text that was written is ASCII. -/
theorem isAscii_of_write {segments : List (List Segment)} {text : Text}
    (h : write segments = .ok text) : text.IsAscii := by
  obtain ⟨lines, hlines, h⟩ := bind_eq_ok_iff.mp h
  cases h
  exact Text.isAscii_join (by decide) (isAscii_of_writeLines hlines)

end MappingsText

namespace Index

variable {index : Index} {options : EncodeOptions} {surroundings : Surroundings} {map : SourceMap}

theorem isAscii_of_encode (written : index.encode options surroundings = .ok map) :
    map.mappings.IsAscii := by
  obtain ⟨_, -, h⟩ := bind_eq_ok_iff.mp written
  obtain ⟨text, htext, h⟩ := bind_eq_ok_iff.mp h
  cases h
  exact MappingsText.isAscii_of_write htext

/-- The names of a written map are those of the mappings of its index. -/
theorem name_of_encode (index : Index)
    (registered : ∀ m ∈ index.mappings, m.source ∈ index.registry.sources)
    (lines : ∀ m ∈ index.mappings, 0 ≤ m.generatedLine)
    (written : index.encode options surroundings = .ok map) :
    ∀ name ∈ map.names, ∃ m ∈ index.mappings, m.name = some name := by
  obtain ⟨⟨found, table⟩, hfound, h⟩ := bind_eq_ok_iff.mp written
  obtain ⟨text, -, h⟩ := bind_eq_ok_iff.mp h
  cases h
  rw [segmentLines_eq {} registered lines] at hfound
  cases hfound
  intro name hname
  rcases NameTable.mem_of_mem_noteAll hname with hname | hname
  · cases hname
  · exact List.mem_map.mp hname

end Index

/-! ### Decoding and encoding again -/

/-- A map written with options that leave lines and sources as they are has the index that it was
written for. -/
theorem ForwardIndex.ofMap_of_faithful {index : ForwardIndex} (coherent : index.Coherent)
    (lines : ∀ m ∈ index.mappings, 0 ≤ m.generatedLine) {options : EncodeOptions}
    (faithful : options.Faithful) {surroundings : Surroundings} {map : SourceMap}
    (written : (Index.forward index).encode options surroundings = .ok map) :
    ofMap map = .ok index := by
  have hread := (Index.forward index).ofMap_of_encode coherent.registered lines written
  have hnames : options.nameSource surroundings = id := funext (faithful.nameSource_eq surroundings)
  have hcarried : options.carried surroundings = id := funext (faithful.carried_eq surroundings)
  rw [hnames, hcarried, List.map_id, List.map_id] at hread
  refine hread.trans (congrArg Except.ok ?_)
  show ofMappings index.registry.sources (sortOn Mapping.place index.mappings) = index
  rw [sortOn_eq_self index.ascending_mappings]
  exact coherent.eq_ofMappings

namespace SourceMap

/-- Options that keep the sources, file, contents and number of lines of a map. -/
def keeping (map : SourceMap) : EncodeOptions where
  file := map.file
  sourcesContent := map.sourcesContent
  lines := map.lineCount
  verbatim := true

/-- Decodes a map and encodes it again. -/
def reencode (map : SourceMap) : Except Fault SourceMap := do
  (Index.forward (← ForwardIndex.ofMap map)).encode map.keeping {}

theorem faithful_keeping (map : SourceMap) : map.keeping.Faithful := ⟨rfl, rfl, Int.le_refl 0⟩

variable {map written : SourceMap}

theorem reencode_eq_ok_iff : map.reencode = .ok written ↔
    ∃ index, ForwardIndex.ofMap map = .ok index ∧
      (Index.forward index).encode map.keeping {} = .ok written := bind_eq_ok_iff

/-- What was written anew has the index of the map. -/
theorem ofMap_of_reencode (h : map.reencode = .ok written) :
    ForwardIndex.ofMap written = ForwardIndex.ofMap map := by
  obtain ⟨index, hindex, hwritten⟩ := reencode_eq_ok_iff.mp h
  obtain ⟨hbuilt, hlines⟩ := ForwardIndex.built_ofMap hindex
  rw [hindex]
  exact ForwardIndex.ofMap_of_faithful hbuilt.coherent hlines map.faithful_keeping hwritten

/-- The file, the number of lines and the contents stay as they are, but a source root is lost. -/
theorem frame_of_reencode (h : map.reencode = .ok written) :
    written.file = map.file ∧ written.sourceRoot = none ∧ written.lineCount = map.lineCount ∧
      written.sourcesContent = map.sourcesContent ∧ written.version = 3 := by
  obtain ⟨index, -, hwritten⟩ := reencode_eq_ok_iff.mp h
  exact Index.frame_of_encode hwritten

theorem keeping_of_reencode (h : map.reencode = .ok written) : written.keeping = map.keeping := by
  obtain ⟨hfile, -, hcount, hcontents, -⟩ := frame_of_reencode h
  rw [keeping, keeping, hfile, hcount, hcontents]

/-- Writing once more what was written anew gives the same map. -/
theorem reencode_of_reencode (h : map.reencode = .ok written) :
    written.reencode = .ok written := by
  have hagain : written.reencode = map.reencode := by
    rw [reencode, reencode, ofMap_of_reencode h, keeping_of_reencode h]
  exact hagain.trans h

/-- The sources stay as they are, but null becomes the empty text. -/
theorem sources_of_reencode (h : map.reencode = .ok written) :
    written.sources = map.sourceNames.map some := by
  obtain ⟨index, hindex, hwritten⟩ := reencode_eq_ok_iff.mp h
  obtain ⟨mappings, hmappings, rfl⟩ := map_eq_ok_iff.mp hindex
  have hregistry := registerAll_resolved hmappings
  rw [Index.sources_of_encode hwritten]
  show (ForwardIndex.ofMappings map.sourceNames mappings).registry.sources.map _ = _
  rw [ForwardIndex.registry_ofMappings, hregistry]
  exact List.map_congr_left fun s _ => congrArg some (map.faithful_keeping.nameSource_eq {} s)

theorem sourceNames_of_reencode (h : map.reencode = .ok written) :
    written.sourceNames = map.sourceNames := by
  rw [sourceNames, sources_of_reencode h, List.map_map]
  exact List.map_id _

theorem names_of_reencode (h : map.reencode = .ok written) :
    ∀ name ∈ written.names, name ∈ map.names := by
  obtain ⟨index, hindex, hwritten⟩ := reencode_eq_ok_iff.mp h
  obtain ⟨hbuilt, hlines⟩ := ForwardIndex.built_ofMap hindex
  obtain ⟨mappings, hmappings, rfl⟩ := map_eq_ok_iff.mp hindex
  intro name hname
  obtain ⟨m, hm, hmname⟩ := (Index.forward _).name_of_encode hbuilt.coherent.registered hlines
    hwritten name hname
  have hmem : m ∈ mappings := by
    rwa [Index.mappings, ForwardIndex.mappings_ofMappings, mem_sortOn] at hm
  exact name_mem_of_resolved hmappings m hmem name hmname

/-- What is written anew for a map with a JSON form has one too. -/
theorem portable_of_reencode (h : map.reencode = .ok written) (portable : map.Portable) :
    written.Portable := by
  have hsources : AreScalar written.sources := by
    rw [sources_of_reencode h]
    rintro _ hentry t rfl
    obtain ⟨name, hname, ht⟩ := List.mem_map.mp hentry
    obtain ⟨source, hsource, rfl⟩ := List.mem_map.mp hname
    obtain rfl := Option.some.inj ht
    cases source with
    | none => exact nofun
    | some s => exact portable.sources _ hsource s rfl
  have hnames : ∀ name ∈ written.names, name.IsScalar :=
    fun name hname => portable.names name (names_of_reencode h name hname)
  obtain ⟨index, -, hwritten⟩ := reencode_eq_ok_iff.mp h
  have hmappings := (Index.isAscii_of_encode hwritten).isScalar
  obtain ⟨hfile, hroot, hcount, hcontents, hversion⟩ := frame_of_reencode h
  exact {
    sources := hsources
    names := hnames
    mappings := hmappings
    file := hfile ▸ portable.file
    sourceRoot := by
      rw [hroot]
      exact nofun
    sourcesContent := hcontents ▸ portable.sourcesContent
    version := hversion
    lineCount := hcount ▸ portable.lineCount }

end SourceMap

end SourceMaps
