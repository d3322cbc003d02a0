import SourceMaps.Index.Forward
import SourceMaps.Index.Reverse

/-!
# Composing and inverting indexes

Two maps of successive stages compose through the file between them: the first leads from original
positions to positions in that file, the second from there to the final output. What the second
does not know is dropped, since the later stage removed that code.

## Main definitions

* `GeneratedPosition.withName`: a position that inherits a name.
* `Grid.compose`: the composition for one file.
* `ReverseIndex.compose`: the composition of two indexes.
* `ReverseIndex.invert`: the forward index of the same mappings.
-/

namespace SourceMaps

/-- The position with a name, unless it has one of its own. -/
def GeneratedPosition.withName (p : GeneratedPosition) (name : Option Text) : GeneratedPosition :=
  { p with name := p.name.or name }

/-- Leads every position of a grid on through a second one, in order. A final position keeps its
name or inherits that of the position that led to it. -/
def Grid.compose (first second : Grid GeneratedPosition) : Grid GeneratedPosition :=
  first.refine fun p => (second.lookup p.line p.column).map (·.withName p.name)

namespace ReverseIndex

/-- The file between two stages: the given one, or the only source of the second index. -/
def intermediateFile (second : ReverseIndex) (given : Option Text) : Except Fault Text :=
  match given, second.registry.sources with
  | some file, _ => .ok file
  | none, [file] => .ok file
  | none, sources => .error (.ambiguousIntermediate sources.length)

/-- The composition of two indexes through the file between them. It has the sources of the first
index; files of which nothing is left are dropped. -/
def compose (first second : ReverseIndex) (intermediate : Option Text) :
    Except Fault ReverseIndex := do
  let between ← second.intermediateFile intermediate
  let target := (second.file? between).getD ∅
  return first.filterMapFiles fun file =>
    let composed := Grid.compose file target
    if composed.isEmpty then none else some composed

/-- The same mappings filed by generated position. Those that share a position keep their order. -/
def invert (index : ReverseIndex) : ForwardIndex :=
  .ofMappings index.registry.sources index.mappings

end ReverseIndex

end SourceMaps
