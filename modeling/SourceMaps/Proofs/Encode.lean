import SourceMaps.Proofs.Decode
import SourceMaps.Proofs.MappingsText
import SourceMaps.Proofs.SegmentLines

/-!
# Encoding: the mappings of a written map

A map that was written for an index has the sources of the index under their new names, and its
mappings are those of the index in the order of their places, moved down by the preamble. This holds
for both kinds of index and for all options.

## Main definitions

* `EncodeOptions.carried`: a mapping after it was written and read back.

## Main statements

* `Mapping.resolve_segmentIn`: the segment of a mapping leads back to it.
* `Index.resolved_of_encode`: the sources and the mappings of a written map.
-/

namespace SourceMaps

/-! ### The steps through written lines -/

namespace MappingsText

/-- Empty lines move the numbers of the lines after them. -/
theorem numbered_replicate (number count : Nat) (lines : List (List Segment)) :
    numbered number (List.replicate count [] ++ lines) = numbered (number + count) lines := by
  induction count generalizing number with
  | zero => rfl
  | succ count ih =>
    rw [List.replicate_succ, List.cons_append, numbered, List.map_nil, List.nil_append, ih]
    congr 1
    omega

/-- The steps through lines that are given by their numbers. -/
theorem numbered_map_range (number count : Nat) (segments : Nat → List Segment) :
    numbered number ((List.range count).map segments) =
      (List.range count).flatMap fun line => (segments line).map (number + line, ·) := by
  induction count generalizing number segments with
  | zero => rfl
  | succ count ih =>
    rw [List.range_succ_eq_map, List.map_cons, List.map_map, numbered, ih, List.flatMap_cons,
      List.flatMap_map]
    have hnext : (fun line => ((segments ∘ Nat.succ) line).map (number + 1 + line, ·)) =
        fun line => (segments line.succ).map (number + line.succ, ·) := by
      funext line
      rw [Nat.add_assoc, Nat.add_comm 1 line]
      rfl
    rw [hnext]
    rfl

end MappingsText

/-- The steps through the lines of mappings, after a preamble, follow their places. -/
theorem numbered_onLine {mappings : List Mapping} (segment : Mapping → Segment) (preamble : Nat)
    (h : ∀ m ∈ mappings, 0 ≤ m.generatedLine) :
    MappingsText.numbered 0 (List.replicate preamble [] ++
      (List.range (lineCount mappings)).map fun line =>
        (sortOn Mapping.generatedColumn (onLine line mappings)).map segment) =
      (sortOn Mapping.place mappings).map fun m =>
        (preamble + m.generatedLine.toNat, segment m) := by
  rw [MappingsText.numbered_replicate, MappingsText.numbered_map_range, ← flatMap_onLine h,
    List.map_flatMap, Nat.zero_add]
  congr 1
  funext line
  rw [List.map_map]
  refine List.map_congr_left fun m hm => ?_
  have hline := (mem_onLine.mp (mem_sortOn.mp hm)).2
  show (preamble + line, segment m) = _
  rw [hline, Int.toNat_natCast]

/-! ### Resolving what was written -/

/-- The entry at the first position of an item is that item, in whatever form the list has it. -/
theorem entryAt?_map_idxOf {items : List Text} {a : Text} (f : Text → Text) (h : a ∈ items) :
    entryAt? (items.map f) (items.idxOf a) = some (f a) := by
  have hget := List.getElem?_idxOf h
  rw [entryAt?, if_neg (by omega), Int.toNat_natCast, List.getElem?_map, hget, Option.map_some]

/-- The segment of a mapping leads back to it, on the line where it stands and with the name that
its source has there. -/
theorem Mapping.resolve_segmentIn {registry : Registry} {table : NameTable} {m : Mapping}
    (rename : Text → Text) (line : Nat) (hsource : m.source ∈ registry.sources)
    (hname : ∀ name, m.name = some name → name ∈ table.items) :
    (m.segmentIn registry table).resolve (registry.sources.map rename) table.items line =
      .ok { m with generatedLine := line, source := rename m.source } := by
  have hslot : entryAt? (registry.sources.map rename) (registry.slot m.source) =
      some (rename m.source) := entryAt?_map_idxOf rename hsource
  unfold segmentIn
  cases hm : m.name with
  | none =>
    rw [Segment.resolve, resolveAt_eq, hslot]
  | some name =>
    have hposition : entryAt? table.items (table.items.idxOf name) = some name := by
      have hentry := entryAt?_map_idxOf id (hname name hm)
      rwa [List.map_id] at hentry
    rw [Segment.resolve, resolveAt_eq, hslot]
    simp only [hposition]

theorem resolveSteps_map {α : Type} {sources names : List Text} {items : List α}
    {step : α → Nat × Segment} {mapping : α → Mapping}
    (h : ∀ a ∈ items, (step a).2.resolve sources names (step a).1 = .ok (mapping a)) :
    resolveSteps sources names (items.map step) = .ok (items.map mapping) := by
  induction items with
  | nil => rfl
  | cons a rest ih =>
    rw [List.map_cons, resolveSteps, h a (by simp), ok_bind,
      ih fun b hb => h b (List.mem_cons_of_mem a hb)]
    rfl

/-! ### Written maps -/

/-- A mapping after it was written with options and read back: the preamble moves it down, and its
source has its name in the map. -/
def EncodeOptions.carried (options : EncodeOptions) (surroundings : Surroundings) (m : Mapping) :
    Mapping :=
  { m with
    generatedLine := m.generatedLine + max 0 options.preambleLineCount
    source := options.nameSource surroundings m.source }

/-- A written map has the sources of its index under their new names. -/
theorem Index.sources_of_encode {index : Index} {options : EncodeOptions}
    {surroundings : Surroundings} {map : SourceMap}
    (written : index.encode options surroundings = .ok map) :
    map.sources = index.sources.map fun s => some (options.nameSource surroundings s) := by
  obtain ⟨⟨lines, names⟩, -, h⟩ := bind_eq_ok_iff.mp written
  obtain ⟨text, -, h⟩ := bind_eq_ok_iff.mp h
  cases h
  exact List.map_map

theorem Index.sourceNames_of_encode {index : Index} {options : EncodeOptions}
    {surroundings : Surroundings} {map : SourceMap}
    (written : index.encode options surroundings = .ok map) :
    map.sourceNames = index.sources.map (options.nameSource surroundings) := by
  rw [SourceMap.sourceNames, sources_of_encode written, List.map_map]
  rfl

/-- What a written map has besides its sources, names and mappings comes from the options, and it
never has a source root. -/
theorem Index.frame_of_encode {index : Index} {options : EncodeOptions}
    {surroundings : Surroundings} {map : SourceMap}
    (written : index.encode options surroundings = .ok map) :
    map.file = options.file ∧ map.sourceRoot = none ∧ map.lineCount = options.lines ∧
      map.sourcesContent = options.sourcesContent ∧ map.version = 3 := by
  obtain ⟨⟨lines, names⟩, -, h⟩ := bind_eq_ok_iff.mp written
  obtain ⟨text, -, h⟩ := bind_eq_ok_iff.mp h
  cases h
  exact ⟨rfl, rfl, rfl, rfl, rfl⟩

/-- A written map has the mappings of its index in the order of their places. -/
theorem Index.resolved_of_encode {index : Index} {options : EncodeOptions}
    {surroundings : Surroundings} {map : SourceMap}
    (registered : ∀ m ∈ index.mappings, m.source ∈ index.registry.sources)
    (lines : ∀ m ∈ index.mappings, 0 ≤ m.generatedLine)
    (written : index.encode options surroundings = .ok map) :
    map.resolved = .ok
      ((sortOn Mapping.place index.mappings).map (options.carried surroundings)) := by
  have hsources := sourceNames_of_encode written
  obtain ⟨⟨found, names⟩, hlines, h⟩ := bind_eq_ok_iff.mp written
  obtain ⟨text, htext, h⟩ := bind_eq_ok_iff.mp h
  cases h
  rw [segmentLines_eq {} registered lines] at hlines
  cases hlines
  -- Every name is in the final table and every source in the registry, so no look-up fails.
  let table : NameTable := NameTable.noteAll {} (index.mappings.map (·.name))
  have hresolve : ∀ m ∈ sortOn Mapping.place index.mappings,
      (m.segmentIn index.registry table).resolve
        (index.sources.map (options.nameSource surroundings)) table.items
        (options.preambleLineCount.toNat + m.generatedLine.toNat) =
          .ok (options.carried surroundings m) := by
    intro m hm
    have hmem := mem_sortOn.mp hm
    have hline := lines m hmem
    have hcarried : ((options.preambleLineCount.toNat + m.generatedLine.toNat : Nat) : Int) =
        m.generatedLine + max 0 options.preambleLineCount := by omega
    rw [sources, Mapping.resolve_segmentIn _ _ (registered m hmem) fun name hname => ?_, hcarried]
    · rfl
    · exact NameTable.mem_noteAll {} (hname ▸ List.mem_map_of_mem hmem)
  rw [SourceMap.resolved, hsources]
  show (MappingsText.walk text).resolve _ table.items = _
  rw [MappingsText.walk_of_write htext, numbered_onLine _ _ lines, Walk.resolve,
    resolveSteps_map hresolve]
  rfl

end SourceMaps
