import SourceMaps.Fault
import SourceMaps.Json.Encoding
import SourceMaps.Json.Writer

/-!
# Source map documents

A source map of version 3 as a record, and its JSON form. A source that is null is kept as such;
the sources of an index read it as the empty text.

## Main definitions

* `SourceMap`: the record.
* `SourceMap.ofJson`, `SourceMap.toJson`: the record and the JSON object.
* `SourceMap.ofText`, `SourceMap.ofBytes`: reading JSON.
* `SourceMap.render`: writing JSON.
-/

namespace SourceMaps

/-- A source map. -/
structure SourceMap where
  /-- The sources, where null is allowed. -/
  sources : List (Option Text)
  /-- The names that segments refer to. -/
  names : List Text
  /-- The mappings text. -/
  mappings : Text
  /-- The generated file. -/
  file : Option Text := none
  /-- What the sources are relative to. -/
  sourceRoot : Option Text := none
  /-- The contents of the sources. -/
  sourcesContent : Option (List (Option Text)) := none
  /-- The number of lines of the generated file. -/
  lineCount : Option Int := none
  /-- The version of the format. -/
  version : Int := 3
deriving DecidableEq

namespace SourceMap

/-- The sources with null read as the empty text. -/
def sourceNames (map : SourceMap) : List Text := map.sources.map (·.getD [])

/-! ### From and to JSON -/

/-- Is the value a number equal to three? -/
def isThree : Json → Bool
  | .int i => i = 3
  | .double x => x.equalsInt 3
  | _ => false

/-- A field that is missing, null or a string. -/
def readText (object : Json) (field : Text) : Except Fault (Option Text) :=
  match object.field? field with
  | none | some .null => .ok none
  | some (.text t) => .ok (some t)
  | some _ => .error (.notText field)

/-- The strings of a list. -/
def readItems (field : Text) : List Json → Except Fault (List Text)
  | [] => .ok []
  | .text t :: rest => (t :: ·) <$> readItems field rest
  | found :: _ => .error (.notTexts field found)

/-- The strings and nulls of a list. -/
def readNullableItems (field : Text) : List Json → Except Fault (List (Option Text))
  | [] => .ok []
  | .text t :: rest => (some t :: ·) <$> readNullableItems field rest
  | .null :: rest => (none :: ·) <$> readNullableItems field rest
  | found :: _ => .error (.notTexts field found)

/-- The items of a field that is a list; a missing one has none. -/
def readList (object : Json) (field : Text) : Except Fault (List Json) :=
  match object.field? field with
  | none => .ok []
  | some (.list items) => .ok items
  | some _ => .error (.notList field)

/-- The mappings text, empty if it is missing. -/
def readMappings (object : Json) : Except Fault Text :=
  match object.field? "mappings" with
  | none => .ok []
  | some (.text t) => .ok t
  | some _ => .error (.notText "mappings")

/-- The contents of the sources; null counts as missing. -/
def readContents (object : Json) : Except Fault (Option (List (Option Text))) :=
  match object.field? "sourcesContent" with
  | none | some .null => .ok none
  | some _ => do
    let items ← readList object "sourcesContent"
    return some (← readNullableItems "sourcesContent" items)

/-- The number of lines; null counts as missing. -/
def readLineCount (object : Json) : Except Fault (Option Int) :=
  match object.field? "lineCount" with
  | none | some .null => .ok none
  | some (.int i) => .ok (some i)
  | some _ => .error (.notInteger "lineCount")

/-- Is the value an object? -/
def isObject : Json → Bool
  | .object _ => true
  | _ => false

/-- The map of a JSON value. The checks come in a fixed order, and the first that fails is
reported. -/
def ofJson (value : Json) : Except Fault SourceMap := do
  if !isObject value then
    throw .notAnObject
  let version := (value.field? "version").getD .null
  if !isThree version then
    throw (.version version)
  if (value.field? "sections").isSome then
    throw .sections
  let mappings ← readMappings value
  let file ← readText value "file"
  let sourceRoot ← readText value "sourceRoot"
  let sourcesContent ← readContents value
  let lineCount ← readLineCount value
  let sources ← readNullableItems "sources" (← readList value "sources")
  let names ← readItems "names" (← readList value "names")
  return { sources, names, mappings, file, sourceRoot, sourcesContent, lineCount }

/-- A text or null. -/
def textOrNull : Option Text → Json
  | some t => .text t
  | none => .null

/-- The JSON object of a map. The file is always written; the source root, the number of lines and
the contents only where the map has them. -/
def toJson (map : SourceMap) : Json :=
  let field (name : Text) (value : Json) : List (Text × Json) := [(name, value)]
  let optional (name : Text) (value : Option Json) : List (Text × Json) :=
    (value.map (name, ·)).toList
  .object (
    field "version" (.int map.version) ++
    field "file" (textOrNull map.file) ++
    optional "sourceRoot" (map.sourceRoot.map .text) ++
    field "sources" (.list (map.sources.map textOrNull)) ++
    optional "lineCount" (map.lineCount.map .int) ++
    field "mappings" (.text map.mappings) ++
    field "names" (.list (map.names.map .text)) ++
    optional "sourcesContent" (map.sourcesContent.map fun c => .list (c.map textOrNull)))

/-! ### From and to text -/

/-- The fault of a text that could not be read as JSON. -/
def readFault (text : Text) : Json.ReadError → Fault
  | .flawed flaw rest => .notJson flaw (.before text rest)
  | .tooManyDigits count => .tooManyDigits count

/-- The map of a JSON text. -/
def ofText (text : Text) : Except Fault SourceMap :=
  match Json.parseText text with
  | .ok value => ofJson value
  | .error e => .error (readFault text e)

/-- The map of JSON bytes. -/
def ofBytes (bytes : Bytes) : Except Fault SourceMap :=
  match Json.decodeBytes bytes with
  | .error cause => .error (.undecodable cause)
  | .ok text =>
    match Json.parse text with
    | .ok value => ofJson value
    | .error e => .error (readFault text e)

/-- The JSON text of a map. -/
def render (map : SourceMap) (layout : Json.Layout) : Text := map.toJson.write layout

end SourceMap

end SourceMaps
