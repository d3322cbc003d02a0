import SourceMaps.IntMap

/-!
# Grids

Items filed by line and column. Lines and columns are in ascending order, and the items of a place
in the order in which they came. A line may be without columns and a column without items.

## Main definitions

* `Grid`: lines of columns of items.
* `Grid.add`, `Grid.lookup`, `Grid.cells`: filing, looking up and walking.
* `Grid.eraseColumn?`: removes a column of a line.
-/

namespace SourceMaps

/-- Items filed by line and column. -/
abbrev Grid (α : Type) := IntMap (IntMap (List α))

namespace Grid

variable {α β : Type}

/-- Files an item after those that are at its place. -/
def add (grid : Grid α) (line column : Int) (item : α) : Grid α :=
  grid.alter line fun columns =>
    (columns.getD ∅).alter column fun items => items.getD [] ++ [item]

/-- The items at a place. -/
def lookup (grid : Grid α) (line column : Int) : List α :=
  ((grid.find? line).bind (·.find? column)).getD []

/-- All items with their places, in ascending order of the places. -/
def cells (grid : Grid α) : List (Int × Int × α) :=
  grid.entries.flatMap fun (line, columns) =>
    columns.entries.flatMap fun (column, items) => items.map (line, column, ·)

/-- Replaces every item by those that `f` gives; columns and lines that become empty are dropped. -/
def refine (f : α → List β) (grid : Grid α) : Grid β :=
  grid.filterMap fun _ columns =>
    let refined : IntMap (List β) := columns.filterMap fun _ items =>
      let found := items.flatMap f
      if found.isEmpty then none else some found
    if refined.isEmpty then none else some refined

end Grid

end SourceMaps
