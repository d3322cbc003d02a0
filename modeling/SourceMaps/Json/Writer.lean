import SourceMaps.Double.Shortest
import SourceMaps.Json.Value

/-!
# Writing JSON

The JSON text of a value, in printable ASCII: every other code point is escaped, and those past
U+FFFF as a pair of UTF-16 units.

## Main definitions

* `Json.Layout`: all on one line, or a line for every item and field.
* `CodePoint.jsonEscaped`, `Text.jsonQuoted`: strings.
* `Json.write`: the text of a value.
-/

namespace SourceMaps

/-- The escape of a UTF-16 unit. -/
def unitEscape (unit : Nat) : Text := "\\u" ++ Numeral.hex 4 unit

/-- The spelling of a code point inside a JSON string. -/
def CodePoint.jsonEscaped (c : CodePoint) : Text :=
  if c = '"' then "\\\""
  else if c = '\\' then "\\\\"
  else if c = '\n' then "\\n"
  else if c = '\r' then "\\r"
  else if c = '\t' then "\\t"
  else if c.toNat = 0x08 then "\\b"
  else if c.toNat = 0x0C then "\\f"
  else if 0x20 ≤ c.toNat ∧ c.toNat ≤ 0x7E then [c]
  else if c.toNat < 0x10000 then unitEscape c.toNat
  else
    let past := c.toNat - 0x10000
    unitEscape (0xD800 + past / 0x400) ++ unitEscape (0xDC00 + past % 0x400)

/-- A text as a JSON string. -/
def Text.jsonQuoted (text : Text) : Text := "\"" ++ text.flatMap (·.jsonEscaped) ++ "\""

/-- The spelling of a number that is not an integer. -/
def Double.jsonSpelling : Double → Text
  | .finite s m e => (Double.finite s m e).spelling
  | .infinite negative => if negative then "-Infinity" else "Infinity"
  | .nan => "NaN"

namespace Json

/-- How the items of lists and the fields of objects are laid out. -/
inductive Layout where
  /-- Everything on one line, without spaces. -/
  | compact
  /-- A line for each item, indented by two spaces a level. -/
  | indented
deriving DecidableEq

/-- What separates a bracket and an item at the given depth. -/
def Layout.lineBreak (layout : Layout) (depth : Nat) : Text :=
  match layout with
  | .compact => []
  | .indented => '\n' :: List.replicate (2 * depth) ↑ ' '

/-- What separates the name of a field and its value. -/
def Layout.colon : Layout → Text
  | .compact => ":"
  | .indented => ": "

/-- Spelled items between brackets; without items the brackets touch. -/
def Layout.enclose (layout : Layout) (depth : Nat) (opening closing : CodePoint)
    (items : List Text) : Text :=
  if items.isEmpty then [opening, closing]
  else
    let line := layout.lineBreak (depth + 1)
    opening :: line ++ Text.join (↑ ',' :: line) items ++ layout.lineBreak depth ++ [closing]

mutual

/-- The JSON text of a value that stands `depth` levels deep. -/
def writeAt (layout : Layout) (depth : Nat) : Json → Text
  | .null => "null"
  | .bool b => if b then "true" else "false"
  | .int i => Numeral.ofInt i
  | .double x => x.jsonSpelling
  | .text t => t.jsonQuoted
  | .list items => layout.enclose depth '[' ']' (writeItems layout (depth + 1) items)
  | .object fields => layout.enclose depth '{' '}' (writeFields layout (depth + 1) fields)

/-- The texts of the items of a list. -/
def writeItems (layout : Layout) (depth : Nat) : List Json → List Text
  | [] => []
  | item :: rest => writeAt layout depth item :: writeItems layout depth rest

/-- The texts of the fields of an object. -/
def writeFields (layout : Layout) (depth : Nat) : List (Text × Json) → List Text
  | [] => []
  | (name, value) :: rest =>
    (name.jsonQuoted ++ layout.colon ++ writeAt layout depth value) ::
      writeFields layout depth rest

end

/-- The JSON text of a value. -/
def write (layout : Layout) (value : Json) : Text := writeAt layout 0 value

end Json

end SourceMaps
