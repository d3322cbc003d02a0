import SourceMaps.Index.Forward
import SourceMaps.Index.Reverse

/-!
# Indexes of either direction

What can be asked of an index whichever way it files its mappings.

## Main definitions

* `Index`: a forward or a reverse index.
* `Index.sources`, `Index.mappings`, `Index.slotOf`: its sources, its mappings in order and the
  position of a source.
* `Index.sameContents`: do two indexes file the same under the same keys?
-/

namespace SourceMaps

/-- A forward or a reverse index. -/
inductive Index where
  | forward (index : ForwardIndex)
  | reverse (index : ReverseIndex)

namespace Index

/-- The sources of the index. -/
def registry : Index → Registry
  | .forward index => index.registry
  | .reverse index => index.registry

/-- The declared and registered sources in order. -/
def sources (index : Index) : List Text := index.registry.sources

/-- The mappings in the order of the index. -/
def mappings : Index → List Mapping
  | .forward index => index.mappings
  | .reverse index => index.mappings

/-- The first position of a source among the sources. -/
def slotOf (index : Index) (source : Text) : Except Fault Nat :=
  match index.registry.slot? source with
  | some slot => .ok slot
  | none => .error (.unknownSource source)

/-- The number of generated lines, or of files. -/
def size : Index → Nat
  | .forward index => index.grid.size
  | .reverse index => index.bySlot.size

end Index

/-- Do two reverse indexes have equal files for the same sources? Their registries may differ. -/
def ReverseIndex.sameContents (a b : ReverseIndex) : Bool :=
  a.bySlot.size == b.bySlot.size && a.files.all fun (source, file) => b.file? source == some file

/-- Equality of what is filed, whatever the registries are. Indexes of different directions have no
common keys, so they are equal only when nothing is filed. -/
def Index.sameContents : Index → Index → Bool
  | .forward a, .forward b => a.grid == b.grid
  | .reverse a, .reverse b => a.sameContents b
  | a, b => a.size == 0 && b.size == 0

end SourceMaps
