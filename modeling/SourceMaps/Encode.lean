import SourceMaps.Document
import SourceMaps.Index.Basic
import SourceMaps.MappingsText
import SourceMaps.NameTable
import SourceMaps.SourcePath

/-!
# Encoding indexes

An index is flattened into a list of absolute segments for every generated line, with the names
collected in a table, and the lines are spelled as the mappings text of a new map. The sources are
named as the options ask.

## Main definitions

* `EncodeOptions`, `Surroundings`: what a map is written with.
* `placeSegment`, `collectSegments`, `Index.segmentLines`: the segments of an index by line.
* `EncodeOptions.nameSources`: the sources of the map.
* `Index.encode`: the map of an index.
-/

namespace SourceMaps

/-- A reading of a clock in seconds. -/
inductive Seconds where
  | whole (seconds : Int)
  | fractional (seconds : Double)

/-- The time in whole milliseconds, rounded toward zero. A time without a finite number of
milliseconds cannot be told in them, and marking sources with it fails; the zero that stands for it
here means nothing, so clocks are supposed to show finite times. -/
def Seconds.milliseconds : Seconds → Int
  | .whole seconds => seconds * 1000
  | .fractional seconds => ((seconds.timesNat 1000).truncate).getD 0

/-- What encoding depends on beside its input. -/
structure Surroundings where
  /-- The working directory. -/
  directory : Text := "/"
  /-- The time. -/
  now : Seconds := .whole 0

/-- What a map is written with. -/
structure EncodeOptions where
  /-- The generated file that the map names. -/
  file : Option Text := none
  /-- Where sources and the map file are put. -/
  relocation : Relocation := {}
  /-- The number of empty lines before those of the index. -/
  preambleLineCount : Int := 0
  /-- Are sources marked with the time? -/
  stamped : Bool := false
  /-- Is the JSON laid out over several lines? -/
  pretty : Bool := false
  /-- The contents of the sources. -/
  sourcesContent : Option (List (Option Text)) := none
  /-- The number of lines that the map states. -/
  lines : Option Int := none
  /-- Are sources written as they are? -/
  verbatim : Bool := false

/-! ### Segments by line -/

/-- Puts a segment at the end of a line, with empty lines added up to it. Negative lines count from
the last one back; before the first there is none. -/
def placeSegment (lines : List (List Segment)) (line : Int) (segment : Segment) :
    Except Fault (List (List Segment)) :=
  let padded := lines ++ List.replicate (line + 1 - lines.length).toNat []
  let position := if line < 0 then lines.length + line else line
  if position < 0 then .error .lineOutOfRange
  else .ok (padded.modify position.toNat (· ++ [segment]))

/-- The segment of a mapping whose source has the given position; a name is interned. -/
def Mapping.segment (m : Mapping) (slot : Nat) (names : NameTable) : Segment × NameTable :=
  match m.name with
  | none => (.sourced m.generatedColumn slot m.line m.column, names)
  | some name =>
    let (position, names) := names.intern name
    (.named m.generatedColumn slot m.line m.column position, names)

/-- Puts the segments of mappings on their lines, in order. -/
def collectSegments (slotOf : Text → Except Fault Nat) :
    List (List Segment) → NameTable → List Mapping →
      Except Fault (List (List Segment) × NameTable)
  | lines, names, [] => .ok (lines, names)
  | lines, names, m :: rest => do
    let slot ← slotOf m.source
    let (segment, names) := m.segment slot names
    let lines ← placeSegment lines m.generatedLine segment
    collectSegments slotOf lines names rest

/-- The segments in the order of their columns; those of one column keep their order. -/
def sortByColumn (segments : List Segment) : List Segment :=
  segments.mergeSort fun a b => a.column ≤ b.column

/-- The segments of an index by generated line, each line in the order of its columns, and the table
with the names of the index added. -/
def Index.segmentLines (index : Index) (names : NameTable) :
    Except Fault (List (List Segment) × NameTable) := do
  let (lines, names) ← collectSegments index.slotOf [] names index.mappings
  return (lines.map sortByColumn, names)

/-! ### The map -/

namespace EncodeOptions

/-- The name of a source in the map. -/
def nameSource (options : EncodeOptions) (surroundings : Surroundings) (source : Text) : Text :=
  let named :=
    if options.verbatim then source
    else if options.relocation.isActive then
      options.relocation.relativize surroundings.directory source
    else SourcePath.baseName source
  if options.stamped then
    named ++ "?rel=" ++ Numeral.ofInt surroundings.now.milliseconds
  else named

/-- The names of the sources in the map. -/
def nameSources (options : EncodeOptions) (surroundings : Surroundings) (sources : List Text) :
    List Text :=
  sources.map (options.nameSource surroundings)

/-- How the JSON of the map is laid out. -/
def layout (options : EncodeOptions) : Json.Layout :=
  if options.pretty then .indented else .compact

end EncodeOptions

/-- The map of an index. -/
def Index.encode (index : Index) (options : EncodeOptions) (surroundings : Surroundings) :
    Except Fault SourceMap := do
  let (lines, names) ← index.segmentLines {}
  let mappings ← MappingsText.write
    (List.replicate options.preambleLineCount.toNat [] ++ lines)
  return {
    sources := (options.nameSources surroundings index.sources).map some
    names := names.items
    mappings
    file := options.file
    sourcesContent := options.sourcesContent
    lineCount := options.lines }

/-- The JSON text of the map of an index. -/
def Index.encodeText (index : Index) (options : EncodeOptions) (surroundings : Surroundings) :
    Except Fault Text :=
  (·.render options.layout) <$> index.encode options surroundings

end SourceMaps
