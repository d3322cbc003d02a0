import SourceMaps.Index.Forward
import SourceMaps.Proofs.Index.Grid
import SourceMaps.Proofs.Index.Registry

/-!
# Forward indexes: what they hold and in which order

The walk through a forward index gives the mappings in the order of their generated positions, and
at each position those that were filed there, in the order in which they came. An index that was
built source by source and mapping by mapping is fixed by its sources and its mappings.

## Main definitions

* `Mapping.place`: the generated position of a mapping, ordered lexicographically.
* `ForwardIndex.Built`: the indexes that declaring, registering and adding lead to.
* `ForwardIndex.Coherent`: what these steps keep.
* `ForwardIndex.Change`, `ForwardIndex.step`, `ForwardIndex.run`: changes, one after the other.

## Main statements

* `ForwardIndex.filter_mappings`, `ForwardIndex.ascending_mappings`: the walk through an index.
* `ForwardIndex.mappings_ofMappings`: filed mappings come back in a stable sort.
* `ForwardIndex.Coherent.eq_ofMappings`: a coherent index is filed anew from what it holds.
-/

namespace SourceMaps

namespace Mapping

/-- The generated position of a mapping. -/
def place (m : Mapping) : Int ×ₗ Int := toLex (m.generatedLine, m.generatedColumn)

/-- The mapping of a generated position and its origin. -/
def ofOriginal (line column : Int) (p : OriginalPosition) : Mapping :=
  ⟨line, column, p.source, p.line, p.column, p.name⟩

@[simp]
theorem place_eq_iff {m : Mapping} {line column : Int} :
    m.place = toLex (line, column) ↔ m.generatedLine = line ∧ m.generatedColumn = column := by
  rw [place, toLex_inj, Prod.mk.injEq]

/-- The mapping as a cell of a grid. -/
def cell (m : Mapping) : Int × Int × OriginalPosition :=
  (m.generatedLine, m.generatedColumn, m.original)

end Mapping

namespace ForwardIndex

theorem ext_grid {a b : ForwardIndex} (hregistry : a.registry = b.registry)
    (hgrid : a.grid = b.grid) : a = b := by
  cases a
  cases b
  simp_all

/-! ### The walk through an index -/

theorem mappings_eq (index : ForwardIndex) :
    index.mappings = index.grid.cells.map fun cell =>
      Mapping.ofOriginal cell.1 cell.2.1 cell.2.2 := rfl

/-- The walk follows the generated positions. -/
theorem ascending_mappings (index : ForwardIndex) : Ascending Mapping.place index.mappings := by
  rw [mappings_eq]
  exact List.pairwise_map.mpr index.grid.ascending_cells

/-- At each generated position the walk gives what a look-up gives there. -/
theorem filter_mappings (index : ForwardIndex) (line column : Int) :
    index.mappings.filter (·.place = toLex (line, column)) =
      (index.lookup line column).map (Mapping.ofOriginal line column) := by
  rw [mappings_eq, List.filter_map]
  have hcells := index.grid.filter_cells line column
  have hplace : (fun cell : Int × Int × OriginalPosition =>
      decide ((Mapping.ofOriginal cell.1 cell.2.1 cell.2.2).place = toLex (line, column))) =
        fun cell => decide (Grid.place cell = toLex (line, column)) := rfl
  rw [Function.comp_def, hplace, hcells, List.map_map]
  rfl

theorem lookup_eq (index : ForwardIndex) (line column : Int) :
    index.lookup line column =
      (index.mappings.filter (·.place = toLex (line, column))).map (·.original) := by
  rw [filter_mappings, List.map_map]
  exact (List.map_id _).symm

/-! ### Filing mappings -/

theorem grid_ofMappings (sources : List Text) (mappings : List Mapping) :
    (ofMappings sources mappings).grid = Grid.addCells ∅ (mappings.map Mapping.cell) := by
  have hfold (index : ForwardIndex) :
      (mappings.foldl (fun index m => index.add m.generatedLine m.generatedColumn m.original)
        index).grid = index.grid.addCells (mappings.map Mapping.cell) := by
    induction mappings generalizing index with
    | nil => rfl
    | cons m rest ih => exact ih (index.add m.generatedLine m.generatedColumn m.original)
  exact hfold (ofSources sources)

theorem registry_ofMappings (sources : List Text) (mappings : List Mapping) :
    (ofMappings sources mappings).registry =
      Registry.registerAll ⟨sources⟩ (mappings.map (·.source)) := by
  have hfold (index : ForwardIndex) :
      (mappings.foldl (fun index m => index.add m.generatedLine m.generatedColumn m.original)
        index).registry = index.registry.registerAll (mappings.map (·.source)) := by
    induction mappings generalizing index with
    | nil => rfl
    | cons m rest ih => exact ih (index.add m.generatedLine m.generatedColumn m.original)
  exact hfold (ofSources sources)

/-- Filed mappings come back in the stable sort of their generated positions. -/
theorem mappings_ofMappings (sources : List Text) (mappings : List Mapping) :
    (ofMappings sources mappings).mappings = sortOn Mapping.place mappings := by
  have hplace (cell : Int × Int × OriginalPosition) :
      (Mapping.ofOriginal cell.1 cell.2.1 cell.2.2).place = Grid.place cell := rfl
  rw [mappings_eq, grid_ofMappings, Grid.cells_addCells, map_sortOn hplace, List.map_map]
  congr 1
  exact List.map_id _

/-- Filed mappings are found at their generated positions in their order. -/
theorem lookup_ofMappings (sources : List Text) (mappings : List Mapping) (line column : Int) :
    (ofMappings sources mappings).lookup line column =
      (mappings.filter (·.place = toLex (line, column))).map (·.original) := by
  rw [lookup_eq, mappings_ofMappings, filter_key_sortOn]

theorem full_ofMappings (sources : List Text) (mappings : List Mapping) :
    (ofMappings sources mappings).grid.Full := by
  rw [grid_ofMappings]
  exact Grid.full_empty.addCells _

/-! ### Indexes that were built -/

/-- The indexes that are built from declared sources by declaring and registering sources and by
adding mappings, in any order. -/
inductive Built : ForwardIndex → Prop where
  | ofSources (sources : List Text) : Built (ofSources sources)
  | declare {index : ForwardIndex} (h : Built index) (source : Text) : Built (index.declare source)
  | register {index : ForwardIndex} (h : Built index) (source : Text) :
      Built (index.register source)
  | add {index : ForwardIndex} (h : Built index) (line column : Int) (p : OriginalPosition) :
      Built (index.add line column p)

theorem built_ofMappings (sources : List Text) (mappings : List Mapping) :
    (ofMappings sources mappings).Built := by
  have hfold {index : ForwardIndex} (h : index.Built) :
      (mappings.foldl (fun index m => index.add m.generatedLine m.generatedColumn m.original)
        index).Built := by
    induction mappings generalizing index with
    | nil => exact h
    | cons m rest ih => exact ih (h.add m.generatedLine m.generatedColumn m.original)
  exact hfold (.ofSources sources)

/-- An index that keeps nothing empty and whose mappings have registered sources. -/
structure Coherent (index : ForwardIndex) : Prop where
  full : index.grid.Full
  registered : ∀ m ∈ index.mappings, m.source ∈ index.registry.sources

theorem coherent_ofSources (sources : List Text) : (ofSources sources).Coherent :=
  ⟨Grid.full_empty, nofun⟩

theorem Coherent.declare {index : ForwardIndex} (h : index.Coherent) (source : Text) :
    (index.declare source).Coherent :=
  ⟨h.full, fun m hm => Registry.mem_sources_declare.mpr (.inl (h.registered m hm))⟩

theorem Coherent.register {index : ForwardIndex} (h : index.Coherent) (source : Text) :
    (index.register source).Coherent :=
  ⟨h.full, fun m hm => Registry.mem_sources_register.mpr (.inl (h.registered m hm))⟩

theorem mem_mappings_iff {index : ForwardIndex} {m : Mapping} :
    m ∈ index.mappings ↔ m.original ∈ index.lookup m.generatedLine m.generatedColumn := by
  rw [lookup, ← Grid.mem_cells_iff, mappings_eq, List.mem_map]
  constructor
  · rintro ⟨cell, hcell, rfl⟩
    exact hcell
  · intro hcell
    exact ⟨m.cell, hcell, rfl⟩

theorem Coherent.add {index : ForwardIndex} (h : index.Coherent) (line column : Int)
    (p : OriginalPosition) : (index.add line column p).Coherent := by
  refine ⟨h.full.add line column p, fun m hm => ?_⟩
  rw [mem_mappings_iff] at hm
  simp only [ForwardIndex.lookup, ForwardIndex.add, Grid.lookup_add] at hm
  refine Registry.mem_sources_register.mpr ?_
  split at hm
  · next hplace =>
    rcases List.mem_append.mp hm with hm | hm
    · rw [← hplace.1, ← hplace.2] at hm
      exact .inl (h.registered m (mem_mappings_iff.mpr hm))
    · exact .inr (congrArg OriginalPosition.source (List.mem_singleton.mp hm))
  · exact .inl (h.registered m (mem_mappings_iff.mpr hm))

theorem Built.coherent {index : ForwardIndex} (h : index.Built) : index.Coherent := by
  induction h with
  | ofSources sources => exact coherent_ofSources sources
  | declare _ source ih => exact ih.declare source
  | register _ source ih => exact ih.register source
  | add _ line column p ih => exact ih.add line column p

/-- A coherent index is what filing its own mappings under its own sources gives. -/
theorem Coherent.eq_ofMappings {index : ForwardIndex} (h : index.Coherent) :
    ofMappings index.registry.sources index.mappings = index := by
  refine ext_grid ?_ ?_
  · rw [registry_ofMappings]
    exact Registry.registerAll_of_mem (by simpa using h.registered)
  · rw [grid_ofMappings, mappings_eq, List.map_map]
    exact (congrArg _ (List.map_id _)).trans h.full.addCells_cells

/-! ### Changes -/

/-- A change to a forward index. -/
inductive Change where
  | declare (source : Text)
  | register (source : Text)
  | add (line column : Int) (position : OriginalPosition)

/-- The index after a change. -/
def step (index : ForwardIndex) : Change → ForwardIndex
  | .declare s => index.declare s
  | .register s => index.register s
  | .add line column p => index.add line column p

/-- The index after changes in order. -/
def run (index : ForwardIndex) (changes : List Change) : ForwardIndex := changes.foldl step index

end ForwardIndex

end SourceMaps
