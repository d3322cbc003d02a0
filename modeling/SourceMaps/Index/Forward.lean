import SourceMaps.Fault
import SourceMaps.Index.Grid
import SourceMaps.Index.Registry
import SourceMaps.Mapping

/-!
# Forward indexes

Mappings filed by generated line and column.

## Main definitions

* `ForwardIndex`: a registry of sources and a grid of original positions.
* `ForwardIndex.ofSources`, `ForwardIndex.add`, `ForwardIndex.ofMappings`: building an index.
* `ForwardIndex.lookup`, `ForwardIndex.mappings`: reading it.
* `ForwardIndex.setLine`, `ForwardIndex.eraseLine`, `ForwardIndex.eraseColumn`,
  `ForwardIndex.clear`: changing lines as a whole. The registry keeps its sources.
-/

namespace SourceMaps

/-- Original positions by generated line and column. -/
structure ForwardIndex where
  /-- The sources that segments can refer to. -/
  registry : Registry
  /-- The positions by generated line and column. -/
  grid : Grid OriginalPosition
deriving DecidableEq

namespace ForwardIndex

/-- The index without mappings over declared sources. -/
def ofSources (sources : List Text) : ForwardIndex := ⟨⟨sources⟩, ∅⟩

/-- Appends a source to the registry. -/
def declare (index : ForwardIndex) (source : Text) : ForwardIndex :=
  { index with registry := index.registry.declare source }

/-- Appends a source to the registry unless it is there. -/
def register (index : ForwardIndex) (source : Text) : ForwardIndex :=
  { index with registry := index.registry.register source }

/-- Files a position under a generated line and column; its source is registered. -/
def add (index : ForwardIndex) (line column : Int) (position : OriginalPosition) : ForwardIndex :=
  ⟨index.registry.register position.source, index.grid.add line column position⟩

/-- The index of a list of mappings over declared sources. -/
def ofMappings (sources : List Text) (mappings : List Mapping) : ForwardIndex :=
  mappings.foldl (fun index m => index.add m.generatedLine m.generatedColumn m.original)
    (ofSources sources)

/-- The positions filed under a generated line and column, in the order in which they came. -/
def lookup (index : ForwardIndex) (line column : Int) : List OriginalPosition :=
  index.grid.lookup line column

/-- All mappings, by generated line and column. -/
def mappings (index : ForwardIndex) : List Mapping :=
  index.grid.cells.map fun (line, column, p) => ⟨line, column, p.source, p.line, p.column, p.name⟩

/-- Replaces a line as a whole. The sources of its positions are not registered. -/
def setLine (index : ForwardIndex) (line : Int) (columns : IntMap (List OriginalPosition)) :
    ForwardIndex :=
  { index with grid := index.grid.insert line columns }

/-- Removes a line. -/
def eraseLine (index : ForwardIndex) (line : Int) : Except Fault ForwardIndex :=
  match index.grid.erase? line with
  | some grid => .ok { index with grid }
  | none => .error (.unknownNumber line)

/-- Removes a column of a line; the line stays, even without columns. -/
def eraseColumn (index : ForwardIndex) (line column : Int) : Except Fault ForwardIndex :=
  match index.grid.find? line with
  | none => .error (.unknownNumber line)
  | some columns =>
    match columns.erase? column with
    | none => .error (.unknownNumber column)
    | some columns => .ok (index.setLine line columns)

/-- Removes all lines. -/
def clear (index : ForwardIndex) : ForwardIndex := { index with grid := ∅ }

end ForwardIndex

end SourceMaps
