import SourceMaps.Proofs.Index.Layers
import SourceMaps.Proofs.Index.SlotTable

/-!
# Forward indexes on top of ranked maps

A forward index can be kept as a table of slots beside ranked maps of lines and columns, whose ranks
are their numbers. Filing a position enters its source into the table and makes the line and the
column on demand, and it never fails; so such an index goes through the same changes as a forward
index and holds the same.

## Main definitions

* `RankedForwardIndex`: a table of slots and a ranked grid.
* `RankedForwardIndex.perform?`, `RankedForwardIndex.run?`: changes to such an index.
* `RankedForwardIndex.Mirrors`: agreement with a forward index.

## Main statements

* `RankedForwardIndex.Mirrors.perform?`: every change succeeds and keeps agreement.
* `RankedForwardIndex.mirrors_run?`: so does every run.
-/

namespace SourceMaps

/-- A forward index on top of ranked maps. -/
structure RankedForwardIndex extends SlotTable where
  /-- The positions by generated line and column. -/
  lines : RankedGrid OriginalPosition

namespace RankedForwardIndex

/-- The index without mappings over declared sources. -/
def ofSources (sources : List Text) : RankedForwardIndex := ⟨.ofSources sources, .empty⟩

/-- Performs a change. -/
def perform? (index : RankedForwardIndex) : ForwardIndex.Change → Option RankedForwardIndex
  | .declare s => some { index with toSlotTable := index.toSlotTable.declare s }
  | .register s => some { index with toSlotTable := index.toSlotTable.register s }
  | .add line column p => do
    let table := index.toSlotTable.register p.source
    let lines ← index.lines.add? line column p
    return ⟨table, lines⟩

/-- The index after changes in order. -/
def run? (index : RankedForwardIndex) (changes : List ForwardIndex.Change) :
    Option RankedForwardIndex := changes.foldlM perform? index

/-- The two kinds of index have the same sources, slots and positions. -/
structure Mirrors (ranked : RankedForwardIndex) (index : ForwardIndex) : Prop where
  table : ranked.toSlotTable.Mirrors index.registry
  lines : ranked.lines.Mirrors index.grid

variable {ranked : RankedForwardIndex} {index : ForwardIndex}

theorem mirrors_ofSources (sources : List Text) :
    Mirrors (ofSources sources) (.ofSources sources) :=
  ⟨SlotTable.mirrors_ofSources sources, RankedGrid.mirrors_empty⟩

theorem Mirrors.perform? (h : Mirrors ranked index) (change : ForwardIndex.Change) :
    ∃ left, ranked.perform? change = some left ∧ Mirrors left (index.step change) := by
  cases change with
  | declare s => exact ⟨_, rfl, h.table.declare s, h.lines⟩
  | register s => exact ⟨_, rfl, h.table.register s, h.lines⟩
  | add line column p =>
    obtain ⟨lines, hlines, hmirrors⟩ := h.lines.add? line column p
    refine ⟨⟨ranked.toSlotTable.register p.source, lines⟩, ?_, h.table.register p.source, hmirrors⟩
    rw [RankedForwardIndex.perform?, hlines]
    rfl

theorem mirrors_run? (sources : List Text) (changes : List ForwardIndex.Change) :
    ∃ ranked, (ofSources sources).run? changes = some ranked ∧
      Mirrors ranked ((ForwardIndex.ofSources sources).run changes) :=
  exists_foldlM (fun _ _ change h => h.perform? change) (mirrors_ofSources sources) changes

end RankedForwardIndex

end SourceMaps
