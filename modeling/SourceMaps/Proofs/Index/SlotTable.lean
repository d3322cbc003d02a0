import SourceMaps.Proofs.Index.Registry

/-!
# Tables of slots

Beside the list of its sources an index can keep a table of their slots, so that no slot has to be
searched for. A source enters the table once, with the number of sources before it, and stays there
as it is. So the table has the first positions of the sources at any time.

## Main definitions

* `SlotTable`: a list of sources and a table of their slots.
* `SlotTable.declare`, `SlotTable.register`: append a source, always or if it has no slot.
* `SlotTable.Mirrors`: agreement with a registry.

## Main statements

* `SlotTable.Mirrors.declare`, `SlotTable.Mirrors.register`: agreement is kept.
* `SlotTable.mirrors_ofSources`: it holds for declared sources.
-/

namespace SourceMaps

/-- Sources beside a table of their slots. -/
structure SlotTable where
  /-- The sources in the order of their declaration. -/
  sources : List Text
  /-- The slots that sources got when they were first declared. -/
  slots : Text → Option Nat

namespace SlotTable

/-- Appends a source, which gets a slot unless it has one. -/
def declare (table : SlotTable) (s : Text) : SlotTable where
  sources := table.sources ++ [s]
  slots t := (table.slots t).or (if s = t then some table.sources.length else none)

/-- Appends a source unless it has a slot. -/
def register (table : SlotTable) (s : Text) : SlotTable :=
  if (table.slots s).isSome then table else table.declare s

/-- The table of declared sources. -/
def ofSources (sources : List Text) : SlotTable := sources.foldl declare ⟨[], fun _ => none⟩

/-- A table has the sources of a registry, with their slots. -/
structure Mirrors (table : SlotTable) (registry : Registry) : Prop where
  sources_eq : table.sources = registry.sources
  slots_eq : table.slots = registry.slot?

variable {table : SlotTable} {registry : Registry} {s : Text}

namespace Mirrors

theorem isSome_slots_iff (h : Mirrors table registry) :
    (table.slots s).isSome ↔ s ∈ registry.sources := by
  rw [h.slots_eq, ← not_iff_not, Option.not_isSome_iff_eq_none, Registry.slot?_eq_none_iff]

theorem declare (h : Mirrors table registry) (s : Text) :
    Mirrors (table.declare s) (registry.declare s) := by
  refine ⟨congrArg (· ++ [s]) h.sources_eq, funext fun t => ?_⟩
  show (table.slots t).or _ = (registry.declare s).slot? t
  rw [Registry.slot?_declare, h.slots_eq, h.sources_eq]

theorem register (h : Mirrors table registry) (s : Text) :
    Mirrors (table.register s) (registry.register s) := by
  by_cases hs : s ∈ registry.sources
  · rw [SlotTable.register, if_pos (h.isSome_slots_iff.mpr hs), Registry.register, if_pos hs]
    exact h
  · rw [SlotTable.register, if_neg (mt h.isSome_slots_iff.mp hs), Registry.register, if_neg hs]
    exact h.declare s

end Mirrors

theorem mirrors_ofSources (sources : List Text) : Mirrors (ofSources sources) ⟨sources⟩ := by
  have hfold (before more : List Text) (table : SlotTable) (h : Mirrors table ⟨before⟩) :
      Mirrors (more.foldl SlotTable.declare table) ⟨before ++ more⟩ := by
    induction more generalizing before table with
    | nil => simpa using h
    | cons s rest ih =>
      rw [List.append_cons]
      exact ih (before ++ [s]) (table.declare s) (h.declare s)
  exact hfold [] sources _ ⟨rfl, rfl⟩

end SlotTable

end SourceMaps
