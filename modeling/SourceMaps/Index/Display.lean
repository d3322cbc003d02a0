import SourceMaps.Index.Basic

/-!
# Indexes in messages

How an index is shown: as nested maps, each with the name of its kind.

## Main definitions

* `OriginalPosition.display`, `GeneratedPosition.display`: positions with their fields.
* `Index.display`: an index with all its levels.
-/

namespace SourceMaps

/-- A text or the lack of one. -/
private def displayName : Option Text → Text
  | some name => name.quoted
  | none => "None"

/-- A kind of thing with what it consists of in parentheses. -/
private def displayAs (kind content : Text) : Text := kind ++ "(" ++ content ++ ")"

/-- An original position with its fields. -/
def OriginalPosition.display (p : OriginalPosition) : Text :=
  displayAs "OriginalPosition" <| Text.join ", "
    ["source=" ++ p.source.quoted, "line=" ++ Numeral.ofInt p.line,
      "column=" ++ Numeral.ofInt p.column, "name=" ++ displayName p.name]

/-- A generated position with its fields. -/
def GeneratedPosition.display (p : GeneratedPosition) : Text :=
  displayAs "GeneratedPosition" <| Text.join ", "
    ["line=" ++ Numeral.ofInt p.line, "column=" ++ Numeral.ofInt p.column,
      "name=" ++ displayName p.name]

/-- A map with integer keys. -/
def IntMap.display {ν : Type} (kind : Text) (value : ν → Text) (m : IntMap ν) : Text :=
  displayAs kind (Text.braced (m.entries.map fun (k, v) => (Numeral.ofInt k, value v)))

/-- A grid; only its outermost level is of the given kind. -/
def Grid.display {α : Type} (kind : Text) (item : α → Text) (grid : Grid α) : Text :=
  IntMap.display kind
    (IntMap.display "SortedMap" fun items => Text.bracketed (items.map item)) grid

/-- An index with all its levels. -/
def Index.display : Index → Text
  | .forward index => Grid.display "ForwardIndex" OriginalPosition.display index.grid
  | .reverse index =>
    displayAs "ReverseIndex" <| Text.braced <| index.files.map fun (source, file) =>
      (source.quoted, Grid.display "SortedMap" GeneratedPosition.display file)

end SourceMaps
