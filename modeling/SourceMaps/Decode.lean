import SourceMaps.Document
import SourceMaps.Index.Forward
import SourceMaps.Index.Reverse
import SourceMaps.MappingsText

/-!
# Decoding maps

The walk through a mappings text, with sources and names looked up in the lists of the map, is a
list of mappings; an index files them by one of their two positions.

## Main definitions

* `Segment.resolve`: the mapping of an absolute segment.
* `Walk.resolve`: the mappings of a walk, in the order of the text.
* `SourceMap.resolved`: the mappings of a map.
* `ForwardIndex.ofMap`, `ReverseIndex.ofMap`: the indexes of a map.
-/

namespace SourceMaps

/-- The entry of a list at an integer position; negative positions have none. -/
def entryAt? {α : Type} (list : List α) (position : Int) : Option α :=
  if position < 0 then none else list[position.toNat]?

/-- The mapping of a segment with a source and perhaps a name. -/
def resolveAt (sources names : List Text) (generatedLine : Nat)
    (column source line originalColumn : Int) (name : Option Int) : Except Fault Mapping := do
  let some sourceName := entryAt? sources source
    | throw (.sourceOutOfRange source sources.length)
  let text ← match name with
    | none => pure none
    | some index =>
      match entryAt? names index with
      | some text => pure (some text)
      | none => throw (.nameOutOfRange index names.length)
  return ⟨generatedLine, column, sourceName, line, originalColumn, text⟩

/-- The mapping of an absolute segment on a generated line. -/
def Segment.resolve (sources names : List Text) (generatedLine : Nat) :
    Segment → Except Fault Mapping
  | .bare column => .error (.noOrigin generatedLine column)
  | .sourced column source line originalColumn =>
    resolveAt sources names generatedLine column source line originalColumn none
  | .named column source line originalColumn name =>
    resolveAt sources names generatedLine column source line originalColumn (some name)

/-- The mappings of steps, up to the first that has none. -/
def resolveSteps (sources names : List Text) :
    List (Nat × Segment) → Except Fault (List Mapping)
  | [] => .ok []
  | (line, segment) :: rest => do
    let mapping ← segment.resolve sources names line
    let mappings ← resolveSteps sources names rest
    return mapping :: mappings

/-- The mappings of a walk in the order of the text. What is wrong with an earlier segment comes
before what stopped the walk. -/
def Walk.resolve (sources names : List Text) (walk : Walk) : Except Fault (List Mapping) := do
  let mappings ← resolveSteps sources names walk.steps
  match walk.fault with
  | none => return mappings
  | some fault => throw fault

namespace SourceMap

/-- The mappings of a map in the order of its mappings text. -/
def resolved (map : SourceMap) : Except Fault (List Mapping) :=
  (MappingsText.walk map.mappings).resolve map.sourceNames map.names

end SourceMap

/-- The forward index of a map. -/
def ForwardIndex.ofMap (map : SourceMap) : Except Fault ForwardIndex :=
  ForwardIndex.ofMappings map.sourceNames <$> map.resolved

/-- The reverse index of a map. Its files come in the order of the sources of the map. -/
def ReverseIndex.ofMap (map : SourceMap) : Except Fault ReverseIndex :=
  ReverseIndex.ofMappings map.sourceNames <$> map.resolved

end SourceMaps
