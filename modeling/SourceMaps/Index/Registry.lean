import SourceMaps.Text.CodePoint

/-!
# Registries of sources

The list of the sources of an index. It keeps declared sources as given, repeats included, so that
its positions agree with those of the contents beside it; a repeated source is known by its first
position, its slot.

## Main definitions

* `Registry`: the list of sources.
* `Registry.declare`, `Registry.register`: append a source, always or if it is new.
* `Registry.slot`, `Registry.slot?`: the first position of a source.
* `Registry.sourceAt`: the source at a slot.

## Main statements

* `Registry.slot_declare`, `Registry.slot_register`: the slots of known sources never change.
-/

namespace SourceMaps

/-- The sources of an index. -/
structure Registry where
  /-- The sources in the order of their declaration. -/
  sources : List Text
deriving DecidableEq

namespace Registry

/-- Appends a source. -/
def declare (r : Registry) (source : Text) : Registry := ⟨r.sources ++ [source]⟩

/-- Appends a source unless it is there. -/
def register (r : Registry) (source : Text) : Registry :=
  if source ∈ r.sources then r else r.declare source

/-- The first position of a source; the number of sources if it is not there. -/
def slot (r : Registry) (source : Text) : Int := r.sources.idxOf source

/-- The first position of a source that is there. -/
def slot? (r : Registry) (source : Text) : Option Nat := r.sources.idxOf? source

/-- The source at a slot. -/
def sourceAt (r : Registry) (slot : Int) : Text := r.sources.getD slot.toNat []

/-- Declaring a source leaves the slots of the others. -/
theorem slot_declare {r : Registry} {s t : Text} (h : t ∈ r.sources) :
    (r.declare s).slot t = r.slot t := by
  simp [slot, declare, List.idxOf_append, h]

/-- Registering a source leaves the slots of the others. -/
theorem slot_register {r : Registry} {s t : Text} (h : t ∈ r.sources) :
    (r.register s).slot t = r.slot t := by
  unfold register
  split
  · rfl
  · exact slot_declare h

/-- Declaring keeps the sources there are. -/
theorem mem_sources_declare {r : Registry} {s t : Text} :
    t ∈ (r.declare s).sources ↔ t ∈ r.sources ∨ t = s := by
  simp [declare]

/-- A registered source is there, beside those there were. -/
theorem mem_sources_register {r : Registry} {s t : Text} :
    t ∈ (r.register s).sources ↔ t ∈ r.sources ∨ t = s := by
  unfold register
  split
  case isTrue h => exact ⟨Or.inl, fun h' => h'.elim id fun e => e ▸ h⟩
  case isFalse => exact mem_sources_declare

end Registry

end SourceMaps
