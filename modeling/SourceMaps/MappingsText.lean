import SourceMaps.Segment
import SourceMaps.Text.Blank
import SourceMaps.Vlq

/-!
# The mappings text

The mappings of a map are one text: a line for every generated line, closed by semicolons, and on
each line the segments between commas. Every segment is the VLQ spelling of its differences.

## Main definitions

* `Walk`: the absolute segments of a text in order, and the fault that ended it, if any.
* `MappingsText.walk`: reads a text.
* `MappingsText.write`: spells lines of absolute segments.
-/

namespace SourceMaps

/-- A walk through a mappings text: the segments passed, each with its generated line, and the fault
that stopped the walk before the end of the text. -/
structure Walk where
  /-- Generated lines and absolute segments in the order of the text. -/
  steps : List (Nat × Segment)
  /-- What stopped the walk. -/
  fault : Option Fault

namespace Walk

/-- The walk that passes nothing more. -/
def finished : Walk := ⟨[], none⟩

/-- The walk that stops at once. -/
def stopped (fault : Fault) : Walk := ⟨[], some fault⟩

/-- A step before a walk. -/
def step (line : Nat) (segment : Segment) (walk : Walk) : Walk :=
  { walk with steps := (line, segment) :: walk.steps }

end Walk

namespace MappingsText

/-- The texts of the segments on a line. A blank line has none, and one comma may follow the last
segment. -/
def pieces (line : Text) : List Text :=
  if line.isBlank then []
  else
    let pieces := line.splitOn ↑ ','
    if pieces.getLast? = some [] then pieces.dropLast else pieces

/-- The differences that the text of a segment spells. -/
def readSegment (line : Nat) (piece : Text) : Except Fault Segment :=
  if piece.isEmpty then .error (.emptySegment line)
  else Vlq.decode piece >>= Segment.ofFields

/-- Walks through the segments of a line and then on with the sums that they lead to. -/
def walkPieces (line : Nat) (onward : Cursor → Walk) : Cursor → List Text → Walk
  | cursor, [] => onward cursor
  | cursor, piece :: rest =>
    match readSegment line piece with
    | .error fault => .stopped fault
    | .ok difference =>
      let (cursor, segment) := cursor.apply difference
      (walkPieces line onward cursor rest).step line segment

/-- Walks through lines, the first of which has the given number. -/
def walkLines : Nat → Cursor → List Text → Walk
  | _, _, [] => .finished
  | number, cursor, line :: rest =>
    walkPieces number (walkLines (number + 1) · rest) cursor.nextLine (pieces line)

/-- The walk through a mappings text. -/
def walk (text : Text) : Walk := walkLines 0 {} (text.splitOn ↑ ';')

/-- Spells the segments of a line; answers the sums after it. -/
def writeSegments : Cursor → List Segment → Except Fault (List Text × Cursor)
  | cursor, [] => .ok ([], cursor)
  | cursor, segment :: rest => do
    let (cursor, difference) := cursor.delta segment
    let piece ← Vlq.encode difference.fields
    let (pieces, cursor) ← writeSegments cursor rest
    return (piece :: pieces, cursor)

/-- Spells lines of segments. -/
def writeLines : Cursor → List (List Segment) → Except Fault (List Text)
  | _, [] => .ok []
  | cursor, segments :: rest => do
    let (pieces, cursor) ← writeSegments cursor.nextLine segments
    let lines ← writeLines cursor rest
    return Text.join "," pieces :: lines

/-- The mappings text of lines of absolute segments, in the order given. -/
def write (lines : List (List Segment)) : Except Fault Text := do
  return Text.join ";" (← writeLines {} lines)

end MappingsText

end SourceMaps
