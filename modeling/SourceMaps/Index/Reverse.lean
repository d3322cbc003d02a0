import SourceMaps.Fault
import SourceMaps.Index.Grid
import SourceMaps.Index.Registry
import SourceMaps.Mapping

/-!
# Reverse indexes

Mappings filed by source, original line and original column. Sources come in the order of their
slots, so files are kept by slot; everything filed is filed under the slot of a registered source.

## Main definitions

* `ReverseIndex`: a registry of sources and a grid of generated positions for each file.
* `ReverseIndex.ofSources`, `ReverseIndex.add`, `ReverseIndex.ofMappings`: building an index.
* `ReverseIndex.file?`, `ReverseIndex.files`, `ReverseIndex.lookup`, `ReverseIndex.mappings`:
  reading it.
* `ReverseIndex.setFile`, `ReverseIndex.eraseFile`, `ReverseIndex.eraseColumn`,
  `ReverseIndex.popFile`, `ReverseIndex.popFirst`, `ReverseIndex.clear`: changing files as a whole.
  The registry keeps its sources.
-/

namespace SourceMaps

/-- Generated positions by source, original line and original column. -/
structure ReverseIndex where
  /-- The sources that segments can refer to. -/
  registry : Registry
  /-- The positions of each file by original line and column, filed under its slot. -/
  bySlot : IntMap (Grid GeneratedPosition)
  /-- Files belong to registered sources. -/
  registered : ∀ k ∈ bySlot.keys, ∃ s ∈ registry.sources, registry.slot s = k
deriving DecidableEq

namespace ReverseIndex

/-- The index without mappings over declared sources. -/
def ofSources (sources : List Text) : ReverseIndex := ⟨⟨sources⟩, ∅, nofun⟩

/-- Appends a source to the registry. -/
def declare (index : ReverseIndex) (source : Text) : ReverseIndex where
  registry := index.registry.declare source
  bySlot := index.bySlot
  registered k hk := by
    obtain ⟨s, hs, rfl⟩ := index.registered k hk
    exact ⟨s, Registry.mem_sources_declare.mpr (.inl hs), Registry.slot_declare hs⟩

/-- Appends a source to the registry unless it is there. -/
def register (index : ReverseIndex) (source : Text) : ReverseIndex where
  registry := index.registry.register source
  bySlot := index.bySlot
  registered k hk := by
    obtain ⟨s, hs, rfl⟩ := index.registered k hk
    exact ⟨s, Registry.mem_sources_register.mpr (.inl hs), Registry.slot_register hs⟩

/-- Registers a source and replaces its file by `f` of the file there is, if any. -/
def alterFile (index : ReverseIndex) (source : Text)
    (f : Option (Grid GeneratedPosition) → Grid GeneratedPosition) : ReverseIndex where
  registry := (index.register source).registry
  bySlot := index.bySlot.alter ((index.register source).registry.slot source) f
  registered k hk := by
    rcases IntMap.mem_keys_alter.mp hk with rfl | hk
    · exact ⟨source, Registry.mem_sources_register.mpr (.inr rfl), rfl⟩
    · exact (index.register source).registered k hk

/-- Files a position under a source and an original line and column; the source is registered. -/
def add (index : ReverseIndex) (source : Text) (line column : Int)
    (position : GeneratedPosition) : ReverseIndex :=
  index.alterFile source fun file => Grid.add (file.getD ∅) line column position

/-- Replaces a file as a whole; its source is registered. -/
def setFile (index : ReverseIndex) (source : Text) (file : Grid GeneratedPosition) :
    ReverseIndex :=
  index.alterFile source fun _ => file

/-- The index of a list of mappings over declared sources. -/
def ofMappings (sources : List Text) (mappings : List Mapping) : ReverseIndex :=
  mappings.foldl (fun index m => index.add m.source m.line m.column m.generated)
    (ofSources sources)

/-- The file of a source. -/
def file? (index : ReverseIndex) (source : Text) : Option (Grid GeneratedPosition) :=
  index.bySlot.find? (index.registry.slot source)

/-- The files with their sources, in the order of their slots. -/
def files (index : ReverseIndex) : List (Text × Grid GeneratedPosition) :=
  index.bySlot.entries.map fun (slot, file) => (index.registry.sourceAt slot, file)

/-- The positions filed under a source and an original line and column, in the order in which they
came. -/
def lookup (index : ReverseIndex) (source : Text) (line column : Int) : List GeneratedPosition :=
  match index.file? source with
  | some file => Grid.lookup file line column
  | none => []

/-- All mappings, by slot of the source, original line and original column. -/
def mappings (index : ReverseIndex) : List Mapping :=
  index.files.flatMap fun (source, file) =>
    (Grid.cells file).map fun (line, column, p) => ⟨p.line, p.column, source, line, column, p.name⟩

/-- Keeps what `f` gives for each file and drops the files for which it gives nothing. -/
def filterMapFiles (index : ReverseIndex)
    (f : Grid GeneratedPosition → Option (Grid GeneratedPosition)) : ReverseIndex where
  registry := index.registry
  bySlot := index.bySlot.filterMap fun _ file => f file
  registered k hk := index.registered k (IntMap.mem_keys_of_filterMap hk)

/-- Removes the file of a source. -/
def eraseFile (index : ReverseIndex) (source : Text) : Except Fault ReverseIndex :=
  match h : index.bySlot.erase? (index.registry.slot source) with
  | some bySlot =>
    .ok ⟨index.registry, bySlot, fun k hk => index.registered k (IntMap.mem_keys_of_erase? h hk)⟩
  | none => .error (.unknownSource source)

/-- Removes a column of a line of a file; line and file stay, even when nothing is left in them. -/
def eraseColumn (index : ReverseIndex) (source : Text) (line column : Int) :
    Except Fault ReverseIndex :=
  match index.file? source with
  | none => .error (.unknownSource source)
  | some file =>
    match file.find? line with
    | none => .error (.unknownNumber line)
    | some columns =>
      match columns.erase? column with
      | none => .error (.unknownNumber column)
      | some columns => .ok (index.setFile source (file.insert line columns))

/-- Removes the file of a source and answers it. -/
def popFile (index : ReverseIndex) (source : Text) :
    Except Fault (Grid GeneratedPosition × ReverseIndex) :=
  match index.file? source with
  | none => .error (.unknownSource source)
  | some file => (file, ·) <$> index.eraseFile source

/-- Removes the first file and answers it with its source, if there is one. -/
def popFirst (index : ReverseIndex) : Option ((Text × Grid GeneratedPosition) × ReverseIndex) :=
  match index.files with
  | [] => none
  | (source, file) :: _ => ((index.eraseFile source).toOption).map ((source, file), ·)

/-- Removes all files. -/
def clear (index : ReverseIndex) : ReverseIndex := ⟨index.registry, ∅, nofun⟩

end ReverseIndex

end SourceMaps
