import SourceMaps.Double.Shortest
import SourceMaps.Json.Value
import SourceMaps.Text.Quoted

/-!
# Values in messages

How messages show a value: texts quoted, `None` for null, truth values capitalised, lists in
square brackets and objects in curly ones.

## Main definitions

* `Json.display`: the text of a value.
* `Text.bracketed`, `Text.braced`: items between brackets, separated by a comma and a space.
-/

namespace SourceMaps

/-- Items between square brackets. -/
def Text.bracketed (items : List Text) : Text := "[" ++ Text.join ", " items ++ "]"

/-- Pairs of a name and a value between curly brackets. -/
def Text.braced (pairs : List (Text × Text)) : Text :=
  "\x7b" ++ Text.join ", " (pairs.map fun (name, value) => name ++ ": " ++ value) ++ "\x7d"

namespace Json

mutual

/-- The text of a value in messages. -/
def display : Json → Text
  | .null => "None"
  | .bool b => if b then "True" else "False"
  | .int i => Numeral.ofInt i
  | .double x => x.spelling
  | .text t => t.quoted
  | .list items => Text.bracketed (displayItems items)
  | .object fields => Text.braced (displayFields fields)

/-- The texts of the items of a list. -/
def displayItems : List Json → List Text
  | [] => []
  | item :: rest => item.display :: displayItems rest

/-- The texts of the fields of an object. -/
def displayFields : List (Text × Json) → List (Text × Text)
  | [] => []
  | (name, value) :: rest => (name.quoted, value.display) :: displayFields rest

end

end Json

end SourceMaps
