import SourceMaps.Text.CodePoint

/-!
# Name tables

The names of a map, each once, in the order in which they were first asked for.

## Main definitions

* `NameTable`: the list of names.
* `NameTable.intern`: the position of a name, which is appended if it is new.
-/

namespace SourceMaps

/-- Names in the order in which they were first asked for. -/
structure NameTable where
  /-- The names. -/
  items : List Text := []
deriving DecidableEq

namespace NameTable

/-- The position of a name and the table that has it there. -/
def intern (table : NameTable) (name : Text) : Nat × NameTable :=
  match table.items.idxOf? name with
  | some position => (position, table)
  | none => (table.items.length, ⟨table.items ++ [name]⟩)

end NameTable

end SourceMaps
