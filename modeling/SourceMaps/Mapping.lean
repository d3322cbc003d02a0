import SourceMaps.Text.CodePoint

/-!
# Mappings

A mapping ties a position in the generated file to a position in a source, with or without a name.
Indexes file mappings by one of the two positions and keep the rest of them.

## Main definitions

* `OriginalPosition`, `GeneratedPosition`: what is filed under the other position.
* `Mapping`: both of them.
-/

namespace SourceMaps

/-- Where a generated position came from. The empty name differs from no name. -/
structure OriginalPosition where
  source : Text
  line : Int
  column : Int
  name : Option Text
deriving DecidableEq

/-- Where an original position ended up. -/
structure GeneratedPosition where
  line : Int
  column : Int
  name : Option Text
deriving DecidableEq

/-- A generated position and its origin. -/
structure Mapping where
  generatedLine : Int
  generatedColumn : Int
  source : Text
  line : Int
  column : Int
  name : Option Text
deriving DecidableEq

namespace Mapping

/-- The mapping without its generated position. -/
def original (m : Mapping) : OriginalPosition := ⟨m.source, m.line, m.column, m.name⟩

/-- The mapping without its origin. -/
def generated (m : Mapping) : GeneratedPosition := ⟨m.generatedLine, m.generatedColumn, m.name⟩

end Mapping

end SourceMaps
