import SourceMaps.Fault

/-!
# Segments

A segment of a mappings text maps a column of a generated line to nothing, to a position in a
source, or to a position in a source and a name. Its fields are differences in the text and
absolute values once they are summed up; a cursor holds the sums.

## Main definitions

* `Segment`: the three shapes.
* `Segment.fields`, `Segment.ofFields`: a segment as a list of integers.
* `Cursor`: the running sums.
* `Cursor.nextLine`, `Cursor.apply`, `Cursor.delta`: what a new line, a difference and an absolute
  segment do to the sums.
-/

namespace SourceMaps

/-- The shapes of segments. Source and name are indices into the lists of a map. -/
inductive Segment where
  /-- A generated column alone. -/
  | bare (column : Int)
  /-- A generated column and its origin. -/
  | sourced (column source line originalColumn : Int)
  /-- A generated column, its origin and a name. -/
  | named (column source line originalColumn name : Int)
deriving DecidableEq

namespace Segment

/-- The fields in the order of the text. -/
def fields : Segment → List Int
  | .bare column => [column]
  | .sourced column source line originalColumn => [column, source, line, originalColumn]
  | .named column source line originalColumn name => [column, source, line, originalColumn, name]

/-- The segment with the given fields: one, four or five of them. -/
def ofFields : List Int → Except Fault Segment
  | [column] => .ok (.bare column)
  | [column, source, line, originalColumn] => .ok (.sourced column source line originalColumn)
  | [column, source, line, originalColumn, name] =>
    .ok (.named column source line originalColumn name)
  | fields => .error (.arity fields)

/-- The generated column. -/
def column : Segment → Int
  | .bare column | .sourced column .. | .named column .. => column

end Segment

/-- The sums of the fields of the segments passed: the column since the start of the line, the
others since the start of the text. Only named segments move the name. -/
structure Cursor where
  column : Int := 0
  source : Int := 0
  line : Int := 0
  originalColumn : Int := 0
  name : Int := 0
deriving DecidableEq

namespace Cursor

/-- Columns start over on every line. -/
def nextLine (c : Cursor) : Cursor := { c with column := 0 }

/-- Adds the differences of a segment; answers the new sums and the absolute segment. -/
def apply (c : Cursor) : Segment → Cursor × Segment
  | .bare column =>
    let c := { c with column := c.column + column }
    (c, .bare c.column)
  | .sourced column source line originalColumn =>
    let c : Cursor := ⟨c.column + column, c.source + source, c.line + line,
      c.originalColumn + originalColumn, c.name⟩
    (c, .sourced c.column c.source c.line c.originalColumn)
  | .named column source line originalColumn name =>
    let c : Cursor := ⟨c.column + column, c.source + source, c.line + line,
      c.originalColumn + originalColumn, c.name + name⟩
    (c, .named c.column c.source c.line c.originalColumn c.name)

/-- Moves the sums to an absolute segment; answers the new sums and the differences. -/
def delta (c : Cursor) : Segment → Cursor × Segment
  | .bare column => ({ c with column := column }, .bare (column - c.column))
  | .sourced column source line originalColumn =>
    (⟨column, source, line, originalColumn, c.name⟩,
      .sourced (column - c.column) (source - c.source) (line - c.line)
        (originalColumn - c.originalColumn))
  | .named column source line originalColumn name =>
    (⟨column, source, line, originalColumn, name⟩,
      .named (column - c.column) (source - c.source) (line - c.line)
        (originalColumn - c.originalColumn) (name - c.name))

/-- The differences of an absolute segment lead to it. -/
theorem apply_delta (c : Cursor) (s : Segment) :
    c.apply (c.delta s).2 = ((c.delta s).1, s) := by
  cases s <;> grind [apply, delta]

/-- The sums after a segment are those to which its absolute form moves. -/
theorem delta_apply (c : Cursor) (s : Segment) :
    c.delta (c.apply s).2 = ((c.apply s).1, s) := by
  cases s <;> grind [apply, delta]

end Cursor

end SourceMaps
