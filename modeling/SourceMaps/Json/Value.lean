import SourceMaps.Double.Basic
import SourceMaps.Text.CodePoint

/-!
# JSON values

A JSON value keeps apart integers, which have no bound, and numbers with a fraction or an
exponent, which are binary64. The fields of an object keep the order in which their names first
appeared.

## Main definitions

* `Json`: the values.
* `Json.ofPairs`: the object of a list of pairs, where a repeated name keeps its place and takes
  its last value.
* `Json.field?`: the value of a field.
* `Json.equals`: numeric equality across the kinds of numbers, and equality of objects up to the
  order of their fields.
-/

namespace SourceMaps

/-- A JSON value. -/
inductive Json where
  | null
  | bool (value : Bool)
  | int (value : Int)
  | double (value : Double)
  | text (value : Text)
  | list (items : List Json)
  | object (fields : List (Text × Json))
deriving Inhabited

namespace Json

/-- The fields with one of them set: in place if the name is there, at the end otherwise. -/
def setField (fields : List (Text × Json)) (name : Text) (value : Json) : List (Text × Json) :=
  match fields with
  | [] => [(name, value)]
  | (n, v) :: rest => if n = name then (n, value) :: rest else (n, v) :: setField rest name value

/-- The object of a list of pairs; of a repeated name the last value counts. -/
def ofPairs (pairs : List (Text × Json)) : Json :=
  .object (pairs.foldl (fun fields (name, value) => setField fields name value) [])

/-- The value of a field of an object; nothing else has fields. -/
def field? (name : Text) : Json → Option Json
  | .object fields => fields.lookup name
  | _ => none

/-- The number that a value stands for in comparisons: truth values count as one and zero. -/
def integer? : Json → Option Int
  | .bool b => some (if b then 1 else 0)
  | .int i => some i
  | _ => none

mutual

/-- Equality of values, with equal numbers of different kinds equal. -/
def equals : Json → Json → Bool
  | .null, .null => true
  | .text s, .text t => s == t
  | .list xs, .list ys => equalsAll xs ys
  | .object fs, .object gs => fs.length == gs.length && equalsFields fs gs
  | .double x, .double y => x.numEq y
  | .double x, y => y.integer?.any x.equalsInt
  | x, .double y => x.integer?.any y.equalsInt
  | x, y => x.integer?.any fun i => y.integer? == some i

/-- Equality of lists, item by item. -/
def equalsAll : List Json → List Json → Bool
  | [], [] => true
  | x :: xs, y :: ys => equals x y && equalsAll xs ys
  | _, _ => false

/-- Has the second object every field of the first, with an equal value? -/
def equalsFields : List (Text × Json) → List (Text × Json) → Bool
  | [], _ => true
  | (name, x) :: fs, gs => (gs.lookup name).any (equals x ·) && equalsFields fs gs

end

end Json

end SourceMaps
