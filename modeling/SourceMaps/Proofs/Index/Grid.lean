import Mathlib.Data.Int.Order.Basic
import Mathlib.Data.Prod.Lex
import SourceMaps.Index.Grid
import SourceMaps.Proofs.IntMap
import SourceMaps.Proofs.StableSort

/-!
# Grids: look-ups determine cells

Walking a grid meets the places in lexicographic order and gives at each of them what a look-up
gives there. A grid that keeps no empty line and no empty column is fixed by its look-ups; filing
and refining keep grids that way.

## Main definitions

* `Grid.place`: the place of a cell, ordered lexicographically.
* `Grid.line`: the columns of a line, none if it is not there.
* `Grid.Full`: grids that keep nothing empty.
* `Grid.addCells`: files cells one after the other.

## Main statements

* `Grid.filter_cells`, `Grid.ascending_cells`: the walk through a grid.
* `Grid.lookup_add`, `Grid.lookup_addCells`, `Grid.lookup_refine`: look-ups after an operation.
* `Grid.cells_addCells`: cells filed in an empty grid come back in a stable sort.
* `Grid.Full.ext`: full grids with the same look-ups are equal.
-/

namespace SourceMaps.Grid

variable {α β γ : Type}

/-! ### Places -/

/-- The place of a cell. -/
def place (cell : Int × Int × α) : Int ×ₗ Int := toLex (cell.1, cell.2.1)

theorem place_le_iff {l c l' c' : Int} :
    toLex (l, c) ≤ toLex (l', c') ↔ l < l' ∨ l = l' ∧ c ≤ c' :=
  Prod.Lex.toLex_le_toLex

@[simp]
theorem place_eq_iff {cell : Int × Int × α} {l c : Int} :
    place cell = toLex (l, c) ↔ cell.1 = l ∧ cell.2.1 = c := by
  rw [place, toLex_inj, Prod.mk.injEq]

/-! ### Look-ups -/

/-- The columns of a line; a line that is not there has none. -/
def line (grid : Grid α) (l : Int) : IntMap (List α) := (grid.find? l).getD ∅

theorem lookup_eq (grid : Grid α) (l c : Int) :
    grid.lookup l c = ((grid.line l).find? c).getD [] := by
  unfold lookup line
  cases grid.find? l <;> rfl

@[simp]
theorem lookup_empty (l c : Int) : lookup (∅ : Grid α) l c = [] := rfl

theorem line_add (grid : Grid α) (l c l' : Int) (item : α) :
    (grid.add l c item).line l' =
      if l' = l then (grid.line l).alter c fun items => items.getD [] ++ [item]
      else grid.line l' := by
  unfold line add
  rw [IntMap.find?_alter]
  split <;> rfl

/-- Filing adds the item at the end of its place and leaves the other places. -/
theorem lookup_add (grid : Grid α) (l c l' c' : Int) (item : α) :
    (grid.add l c item).lookup l' c' =
      if l' = l ∧ c' = c then grid.lookup l c ++ [item] else grid.lookup l' c' := by
  rw [lookup_eq, line_add]
  by_cases hl : l' = l
  · subst hl
    rw [if_pos rfl, IntMap.find?_alter]
    by_cases hc : c' = c
    · subst hc
      simp [lookup_eq]
    · simp [hc, lookup_eq]
  · simp [hl, lookup_eq]

/-! ### The walk through a grid -/

/-- The walk meets the places in lexicographic order. -/
theorem ascending_cells (grid : Grid α) : Ascending place grid.cells := by
  -- Places are equal within a column and ascend from column to column and from line to line.
  refine List.pairwise_flatMap.mpr ⟨fun e _ => List.pairwise_flatMap.mpr ⟨fun f _ => ?_, ?_⟩, ?_⟩
  · refine List.pairwise_map.mpr (List.pairwise_of_forall_mem_list fun a _ b _ => ?_)
    exact le_refl _
  · refine e.2.ascending.imp fun {f f'} hcolumn x hx y hy => ?_
    obtain ⟨a, -, rfl⟩ := List.mem_map.mp hx
    obtain ⟨b, -, rfl⟩ := List.mem_map.mp hy
    exact place_le_iff.mpr (.inr ⟨rfl, le_of_lt hcolumn⟩)
  · refine grid.ascending.imp fun {e e'} hline x hx y hy => ?_
    obtain ⟨f, -, hx⟩ := List.mem_flatMap.mp hx
    obtain ⟨a, -, rfl⟩ := List.mem_map.mp hx
    obtain ⟨f', -, hy⟩ := List.mem_flatMap.mp hy
    obtain ⟨b, -, rfl⟩ := List.mem_map.mp hy
    exact place_le_iff.mpr (.inl hline)

/-- At each place the walk gives what a look-up gives there. -/
theorem filter_cells (grid : Grid α) (l c : Int) :
    grid.cells.filter (place · = toLex (l, c)) = (grid.lookup l c).map (l, c, ·) := by
  have hcolumns (columns : IntMap (List α)) :
      (columns.entries.flatMap fun e => e.2.map (l, e.1, ·)).filter
        (place · = toLex (l, c)) = ((columns.find? c).getD []).map (l, c, ·) := by
    rw [IntMap.filter_flatMap_entries columns c]
    · cases columns.find? c with
      | none => rfl
      | some items => simp [List.filter_map, Function.comp_def, place_eq_iff]
    · intro e _ hne
      simp [List.filter_map, Function.comp_def, place_eq_iff, hne]
  -- Of the lines only `l` contributes, and of its columns only `c`.
  rw [cells, IntMap.filter_flatMap_entries grid l]
  · rw [lookup_eq, line]
    cases grid.find? l with
    | none => rfl
    | some columns => exact hcolumns columns
  · intro e _ hne
    refine List.filter_eq_nil_iff.mpr fun x hx => ?_
    obtain ⟨f, -, hx⟩ := List.mem_flatMap.mp hx
    obtain ⟨a, -, rfl⟩ := List.mem_map.mp hx
    simp [place_eq_iff, hne]

/-- Cells in lexicographic order that agree with the look-ups are the walk. -/
theorem eq_cells {grid : Grid α} {found : List (Int × Int × α)} (h : Ascending place found)
    (hlookup : ∀ l c, found.filter (place · = toLex (l, c)) = (grid.lookup l c).map (l, c, ·)) :
    found = grid.cells := by
  refine eq_of_filter_key_eq h grid.ascending_cells fun a _ => ?_
  have hplace : place a = toLex (a.1, a.2.1) := rfl
  rw [hplace, hlookup, filter_cells]

theorem mem_cells_iff {grid : Grid α} {l c : Int} {item : α} :
    (l, c, item) ∈ grid.cells ↔ item ∈ grid.lookup l c := by
  have h : (l, c, item) ∈ grid.cells ↔
      (l, c, item) ∈ grid.cells.filter (place · = toLex (l, c)) := by
    simp [List.mem_filter]
  rw [h, filter_cells]
  simp

/-! ### Filing many cells -/

/-- Files cells one after the other. -/
def addCells (grid : Grid α) (found : List (Int × Int × α)) : Grid α :=
  found.foldl (fun grid (l, c, item) => grid.add l c item) grid

/-- Filing cells adds to each place the items for it in their order. -/
theorem lookup_addCells (grid : Grid α) (found : List (Int × Int × α)) (l c : Int) :
    (grid.addCells found).lookup l c =
      grid.lookup l c ++ (found.filter (place · = toLex (l, c))).map (·.2.2) := by
  induction found generalizing grid with
  | nil => simp [addCells]
  | cons cell rest ih =>
    obtain ⟨l', c', item⟩ := cell
    have hstep : grid.addCells ((l', c', item) :: rest) = (grid.add l' c' item).addCells rest := rfl
    rw [hstep, ih, lookup_add]
    by_cases hplace : l = l' ∧ c = c'
    · obtain ⟨rfl, rfl⟩ := hplace
      simp [place_eq_iff]
    · have hplace' : ¬(l' = l ∧ c' = c) := fun ⟨hl, hc⟩ => hplace ⟨hl.symm, hc.symm⟩
      rw [if_neg hplace, List.filter_cons_of_neg (by simpa [place_eq_iff] using hplace')]

/-- Cells filed in an empty grid come back in the stable sort of their places. -/
theorem cells_addCells (found : List (Int × Int × α)) :
    (addCells ∅ found).cells = sortOn place found := by
  refine (eq_cells (ascending_sortOn place found) fun l c => ?_).symm
  rw [filter_key_sortOn, lookup_addCells, lookup_empty, List.nil_append, List.map_map]
  refine (List.map_id _).symm.trans (List.map_congr_left fun cell hcell => ?_)
  have hplace : cell.1 = l ∧ cell.2.1 = c := by simpa using (List.mem_filter.mp hcell).2
  obtain ⟨rfl, rfl⟩ := hplace
  rfl

/-! ### Full grids -/

/-- Grids that keep nothing empty: each of their lines has a column, each of these an item. -/
def Full (grid : Grid α) : Prop :=
  ∀ l columns, grid.find? l = some columns →
    columns ≠ ∅ ∧ ∀ c items, columns.find? c = some items → items ≠ []

theorem full_empty : Full (∅ : Grid α) := nofun

/-- A line of a full grid is there exactly if it has columns. -/
theorem Full.find?_iff {grid : Grid α} (h : grid.Full) {l : Int} {columns : IntMap (List α)} :
    grid.find? l = some columns ↔ grid.line l = columns ∧ columns ≠ ∅ := by
  unfold line
  cases hl : grid.find? l with
  | none =>
    simp only [Option.getD_none, reduceCtorEq, false_iff]
    exact fun ⟨hcolumns, hne⟩ => hne hcolumns.symm
  | some found =>
    simp only [Option.some.injEq, Option.getD_some]
    exact ⟨fun heq => ⟨heq, heq ▸ (h l found hl).1⟩, And.left⟩

/-- A column of a full grid is there exactly if it has items. -/
theorem Full.find?_line_iff {grid : Grid α} (h : grid.Full) {l c : Int} {items : List α} :
    (grid.line l).find? c = some items ↔ grid.lookup l c = items ∧ items ≠ [] := by
  rw [lookup_eq]
  cases hc : (grid.line l).find? c with
  | none =>
    simp only [Option.getD_none, reduceCtorEq, false_iff]
    exact fun ⟨hitems, hne⟩ => hne hitems.symm
  | some found =>
    have hne : found ≠ [] := by
      unfold line at hc
      cases hl : grid.find? l with
      | none => simp [hl] at hc
      | some columns =>
        rw [hl, Option.getD_some] at hc
        exact (h l columns hl).2 c found hc
    simp only [Option.some.injEq, Option.getD_some]
    exact ⟨fun heq => ⟨heq, heq ▸ hne⟩, And.left⟩

/-- Full grids with the same look-ups are equal. -/
theorem Full.ext {g h : Grid α} (hg : g.Full) (hh : h.Full)
    (hlookup : ∀ l c, g.lookup l c = h.lookup l c) : g = h := by
  -- What a full grid has at a key is not empty, so the look-ups also tell which keys are there.
  have hline (l : Int) : g.line l = h.line l := by
    refine IntMap.ext_find? fun c => Option.ext fun items => ?_
    rw [hg.find?_line_iff, hh.find?_line_iff, hlookup]
  refine IntMap.ext_find? fun l => Option.ext fun columns => ?_
  rw [hg.find?_iff, hh.find?_iff, hline]

theorem Full.mem_keys_line_iff {grid : Grid α} (h : grid.Full) {l c : Int} :
    c ∈ (grid.line l).keys ↔ grid.lookup l c ≠ [] := by
  rw [IntMap.mem_keys_iff]
  simp [h.find?_line_iff]

theorem Full.mem_keys_iff {grid : Grid α} (h : grid.Full) {l : Int} :
    l ∈ grid.keys ↔ ∃ c, grid.lookup l c ≠ [] := by
  have hline : l ∈ grid.keys ↔ grid.line l ≠ ∅ := by
    rw [IntMap.mem_keys_iff]
    simp [h.find?_iff]
  rw [hline]
  constructor
  · intro hne
    by_contra hnone
    refine hne (IntMap.ext_find? fun c => ?_)
    rw [IntMap.find?_empty, IntMap.find?_eq_none_iff, h.mem_keys_line_iff]
    exact fun hc => hnone ⟨c, hc⟩
  · rintro ⟨c, hc⟩ hempty
    exact hc (by simp [lookup_eq, hempty])

theorem Full.add {grid : Grid α} (h : grid.Full) (l c : Int) (item : α) :
    (grid.add l c item).Full := by
  intro l' columns hfind
  unfold Grid.add at hfind
  rw [IntMap.find?_alter] at hfind
  by_cases hl : l' = l
  · rw [if_pos hl, Option.some.injEq] at hfind
    subst hfind
    constructor
    · intro hempty
      have hc := congrArg (·.find? c) hempty
      simp [IntMap.find?_alter] at hc
    · intro c' items hitems
      rw [IntMap.find?_alter] at hitems
      by_cases hc : c' = c
      · rw [if_pos hc, Option.some.injEq] at hitems
        simp [← hitems]
      · rw [if_neg hc] at hitems
        exact (h.find?_line_iff.mp hitems).2
  · rw [if_neg hl] at hfind
    exact h l' columns hfind

theorem Full.addCells {grid : Grid α} (h : grid.Full) (found : List (Int × Int × α)) :
    (grid.addCells found).Full := by
  induction found generalizing grid with
  | nil => exact h
  | cons cell rest ih => exact ih (h.add cell.1 cell.2.1 cell.2.2)

/-- Filing the cells of a full grid gives the grid again. -/
theorem Full.addCells_cells {grid : Grid α} (h : grid.Full) :
    Grid.addCells ∅ grid.cells = grid := by
  refine (full_empty.addCells _).ext h fun l c => ?_
  rw [lookup_addCells, filter_cells, lookup_empty, List.nil_append, List.map_map]
  exact List.map_id _

/-! ### Refining -/

theorem find?_refine (f : α → List β) (grid : Grid α) (l : Int) :
    (grid.refine f).find? l = (grid.find? l).bind fun columns =>
      let refined : IntMap (List β) := columns.filterMap fun _ items =>
        let found := items.flatMap f
        if found.isEmpty then none else some found
      if refined.isEmpty then none else some refined :=
  IntMap.find?_filterMap _ grid l

theorem lookup_refine (f : α → List β) (grid : Grid α) (l c : Int) :
    (grid.refine f).lookup l c = (grid.lookup l c).flatMap f := by
  unfold lookup
  rw [find?_refine]
  cases grid.find? l with
  | none => rfl
  | some columns =>
    have hcolumn : ((columns.filterMap fun _ items =>
        let found := items.flatMap f
        if found.isEmpty then none else some found).find? c).getD [] =
          ((columns.find? c).getD []).flatMap f := by
      rw [IntMap.find?_filterMap]
      cases columns.find? c with
      | none => rfl
      | some items =>
        simp only [Option.bind_some, Option.getD_some]
        split
        · next hempty => rw [List.isEmpty_iff.mp hempty, Option.getD_none]
        · rw [Option.getD_some]
    simp only [Option.bind_some]
    rw [← hcolumn]
    split
    · next hempty => rw [IntMap.isEmpty_iff.mp hempty]; rfl
    · rfl

theorem full_refine (f : α → List β) (grid : Grid α) : (grid.refine f).Full := by
  intro l refined hfind
  rw [find?_refine, Option.bind_eq_some_iff] at hfind
  obtain ⟨columns, -, hrefined⟩ := hfind
  simp only [Option.ite_none_left_eq_some, Option.some.injEq] at hrefined
  obtain ⟨hne, rfl⟩ := hrefined
  refine ⟨fun hempty => hne (IntMap.isEmpty_iff.mpr hempty), fun c found hfound => ?_⟩
  rw [IntMap.find?_filterMap, Option.bind_eq_some_iff] at hfound
  obtain ⟨items, -, hitems⟩ := hfound
  simp only [Option.ite_none_left_eq_some, Option.some.injEq] at hitems
  obtain ⟨hne', rfl⟩ := hitems
  exact fun hnil => hne' (by simp [hnil])

/-- The walk through a refined grid gives, cell by cell, what the items give. -/
theorem cells_refine (f : α → List β) (grid : Grid α) :
    (grid.refine f).cells =
      grid.cells.flatMap fun cell => (f cell.2.2).map (cell.1, cell.2.1, ·) := by
  refine (eq_cells ?_ fun l c => ?_).symm
  · refine List.pairwise_flatMap.mpr ⟨fun cell _ => ?_, ?_⟩
    · refine List.pairwise_map.mpr (List.pairwise_of_forall_mem_list fun a _ b _ => ?_)
      exact le_refl _
    · refine grid.ascending_cells.imp fun {cell cell'} hplace x hx y hy => ?_
      obtain ⟨a, -, rfl⟩ := List.mem_map.mp hx
      obtain ⟨b, -, rfl⟩ := List.mem_map.mp hy
      exact hplace
  · have hplaces : ∀ cell ∈ grid.cells, ∀ x ∈ (f cell.2.2).map (cell.1, cell.2.1, ·),
        decide (place x = toLex (l, c)) = decide (place cell = toLex (l, c)) := by
      intro cell _ x hx
      obtain ⟨b, -, rfl⟩ := List.mem_map.mp hx
      rfl
    rw [filter_flatMap_of_forall hplaces, filter_cells, lookup_refine, List.flatMap_map,
      List.map_flatMap]

/-- Refining twice is refining once by both steps. -/
theorem refine_refine (f : α → List β) (g : β → List γ) (grid : Grid α) :
    (grid.refine f).refine g = grid.refine fun a => (f a).flatMap g := by
  refine (full_refine g _).ext (full_refine _ grid) fun l c => ?_
  rw [lookup_refine, lookup_refine, lookup_refine, List.flatMap_assoc]

end SourceMaps.Grid
