import SourceMaps.Index.Reverse
import SourceMaps.Proofs.Index.Grid
import SourceMaps.Proofs.Index.Registry

/-!
# Reverse indexes: what they hold and in which order

The walk through a reverse index gives the mappings in the order of the slots of their sources and,
within a source, in the order of their original positions; at each of these it gives those that were
filed there, in the order in which they came.

## Main definitions

* `OriginalPosition.rank`: an original position, ordered by slot, line and column.
* `Mapping.origin`: the source and the original position of a mapping.

## Main statements

* `ReverseIndex.file?_alterFile`: what altering a file does to the files.
* `ReverseIndex.lookup_add`, `ReverseIndex.lookup_ofMappings`: look-ups after filing.
* `ReverseIndex.filter_mappings`, `ReverseIndex.ascending_mappings`: the walk through an index.
* `ReverseIndex.mappings_ofMappings`: filed mappings come back in a stable sort.
-/

namespace SourceMaps

/-- An original position by the slot of its source, its line and its column. -/
def OriginalPosition.rank (r : Registry) (p : OriginalPosition) : Int ×ₗ Int ×ₗ Int :=
  toLex (r.slot p.source, toLex (p.line, p.column))

namespace Mapping

/-- The source and the original position of a mapping. -/
def origin (m : Mapping) : Text × Int × Int := (m.source, m.line, m.column)

/-- The mapping of an origin and a generated position. -/
def ofGenerated (source : Text) (line column : Int) (p : GeneratedPosition) : Mapping :=
  ⟨p.line, p.column, source, line, column, p.name⟩

/-- Mappings from registered sources are of one rank exactly if they have one origin. -/
theorem rank_eq_iff {r : Registry} {m m' : Mapping} (h : m.source ∈ r.sources) :
    m.original.rank r = m'.original.rank r ↔ m.origin = m'.origin := by
  simp only [OriginalPosition.rank, original, origin, toLex_inj, Prod.mk.injEq]
  refine and_congr_left fun _ => ⟨fun hslot => Registry.slot_inj h hslot, fun hsource => ?_⟩
  rw [hsource]

end Mapping

namespace ReverseIndex

variable {index : ReverseIndex} {s t : Text}

/-! ### Files -/

theorem ext_bySlot {a b : ReverseIndex} (hregistry : a.registry = b.registry)
    (hfiles : ∀ k, a.bySlot.find? k = b.bySlot.find? k) : a = b := by
  have hbySlot : a.bySlot = b.bySlot := IntMap.ext_find? hfiles
  cases a
  cases b
  simp_all

/-- A reverse index is fixed by its registry and its files. -/
theorem ext_file? {a b : ReverseIndex} (hregistry : a.registry = b.registry)
    (hfile : ∀ s, a.file? s = b.file? s) : a = b := by
  apply ext_bySlot hregistry
  intro k
  by_cases hk : k ∈ a.bySlot.keys ∨ k ∈ b.bySlot.keys
  · obtain ⟨s, rfl⟩ : ∃ s, a.registry.slot s = k := by
      rcases hk with hk | hk
      · obtain ⟨s, -, hs⟩ := a.registered k hk
        exact ⟨s, hs⟩
      · obtain ⟨s, -, hs⟩ := b.registered k hk
        exact ⟨s, hregistry ▸ hs⟩
    have hs := hfile s
    rwa [file?, file?, ← hregistry] at hs
  · rw [not_or] at hk
    rw [IntMap.find?_eq_none_iff.mpr hk.1, IntMap.find?_eq_none_iff.mpr hk.2]

theorem file?_of_notMem (h : s ∉ index.registry.sources) : index.file? s = none := by
  rw [file?, IntMap.find?_eq_none_iff]
  intro hkey
  obtain ⟨u, hu, hslot⟩ := index.registered _ hkey
  have hlt := Registry.slot_lt hu
  rw [hslot, Registry.slot_of_notMem h] at hlt
  omega

/-- Growing the registry leaves the files where they are. -/
theorem file?_eq_of_extends {later : ReverseIndex}
    (hregistry : later.registry.Extends index.registry) (hfiles : later.bySlot = index.bySlot)
    (t : Text) : later.file? t = index.file? t := by
  rw [file?, hfiles]
  by_cases ht : t ∈ index.registry.sources
  · rw [hregistry.slot_eq ht, file?]
  · rw [file?_of_notMem ht, IntMap.find?_eq_none_iff]
    intro hkey
    -- A file at the slot of `t` would be that of a source that was there before, which `t` is not.
    obtain ⟨u, hu, hslot⟩ := index.registered _ hkey
    rw [← hregistry.slot_eq hu] at hslot
    exact ht (Registry.slot_inj (hregistry.subset hu) hslot ▸ hu)

theorem file?_declare (index : ReverseIndex) (s : Text) :
    (index.declare s).file? = index.file? :=
  funext (file?_eq_of_extends (Registry.extends_declare _ s) rfl)

theorem file?_register (index : ReverseIndex) (s : Text) :
    (index.register s).file? = index.file? :=
  funext (file?_eq_of_extends (Registry.extends_register _ s) rfl)

theorem find?_slot_register (index : ReverseIndex) (s t : Text) :
    index.bySlot.find? ((index.registry.register s).slot t) = index.file? t :=
  congrFun (index.file?_register s) t

/-- Altering a file alters that of its source and leaves the others. -/
theorem file?_alterFile (index : ReverseIndex) (s t : Text)
    (f : Option (Grid GeneratedPosition) → Grid GeneratedPosition) :
    (index.alterFile s f).file? t = if t = s then some (f (index.file? s)) else index.file? t := by
  have hs : s ∈ (index.registry.register s).sources :=
    Registry.mem_sources_register.mpr (.inr rfl)
  have hslots : (index.registry.register s).slot t = (index.registry.register s).slot s ↔ t = s :=
    ⟨fun heq => (Registry.slot_inj hs heq.symm).symm, fun heq => heq ▸ rfl⟩
  show (index.bySlot.alter ((index.registry.register s).slot s) f).find?
    ((index.registry.register s).slot t) = _
  rw [IntMap.find?_alter, find?_slot_register, find?_slot_register]
  simp only [hslots]

/-! ### Look-ups -/

theorem lookup_eq_file? (index : ReverseIndex) (s : Text) (l c : Int) :
    index.lookup s l c = Grid.lookup ((index.file? s).getD ∅) l c := by
  unfold lookup
  cases index.file? s <;> rfl

theorem lookup_add (index : ReverseIndex) (s t : Text) (l c l' c' : Int) (p : GeneratedPosition) :
    (index.add s l c p).lookup t l' c' =
      if (t, l', c') = (s, l, c) then index.lookup s l c ++ [p] else index.lookup t l' c' := by
  rw [lookup_eq_file?, add, file?_alterFile]
  by_cases ht : t = s
  · subst ht
    rw [if_pos rfl, Option.getD_some, Grid.lookup_add]
    simp [lookup_eq_file?]
  · simp [ht, lookup_eq_file?]

/-- Filed mappings are found at their origins in their order. -/
theorem lookup_ofMappings (sources : List Text) (mappings : List Mapping) (s : Text) (l c : Int) :
    (ofMappings sources mappings).lookup s l c =
      (mappings.filter (·.origin = (s, l, c))).map (·.generated) := by
  have hfold (index : ReverseIndex) :
      (mappings.foldl (fun index m => index.add m.source m.line m.column m.generated)
        index).lookup s l c =
          index.lookup s l c ++ (mappings.filter (·.origin = (s, l, c))).map (·.generated) := by
    induction mappings generalizing index with
    | nil => simp
    | cons m rest ih =>
      rw [List.foldl_cons, ih, lookup_add]
      by_cases hm : m.origin = (s, l, c)
      · have hplace : (m.source, m.line, m.column) = (s, l, c) := hm
        rw [if_pos hplace.symm, List.filter_cons_of_pos (by simpa using hm), List.map_cons,
          List.append_assoc]
        obtain ⟨rfl, rfl, rfl⟩ := hplace
        rfl
      · have hplace : ¬(s, l, c) = (m.source, m.line, m.column) := fun heq => hm heq.symm
        rw [if_neg hplace, List.filter_cons_of_neg (by simpa using hm)]
  exact hfold (ofSources sources)

/-! ### The walk through an index -/

theorem mappings_eq (index : ReverseIndex) :
    index.mappings = index.bySlot.entries.flatMap fun e =>
      (Grid.cells e.2).map fun cell =>
        Mapping.ofGenerated (index.registry.sourceAt e.1) cell.1 cell.2.1 cell.2.2 := by
  rw [mappings, files, List.flatMap_map]
  rfl

/-- Files are filed under the slots of their sources. -/
theorem slot_sourceAt {e : Int × Grid GeneratedPosition} (h : e ∈ index.bySlot.entries) :
    index.registry.sourceAt e.1 ∈ index.registry.sources ∧
      index.registry.slot (index.registry.sourceAt e.1) = e.1 := by
  obtain ⟨u, hu, hslot⟩ := index.registered e.1 (List.mem_map_of_mem h)
  rw [← hslot, Registry.sourceAt_slot hu]
  exact ⟨hu, rfl⟩

theorem registered_mappings (index : ReverseIndex) :
    ∀ m ∈ index.mappings, m.source ∈ index.registry.sources := by
  intro m hm
  rw [mappings_eq] at hm
  obtain ⟨e, he, hm⟩ := List.mem_flatMap.mp hm
  obtain ⟨cell, -, rfl⟩ := List.mem_map.mp hm
  exact (slot_sourceAt he).1

/-- The walk follows the slots of the sources and then the original positions. -/
theorem ascending_mappings (index : ReverseIndex) :
    Ascending (fun m => m.original.rank index.registry) index.mappings := by
  rw [mappings_eq]
  refine List.pairwise_flatMap.mpr ⟨fun e _ => ?_, ?_⟩
  · refine List.pairwise_map.mpr ((Grid.ascending_cells e.2).imp fun {a b} hab => ?_)
    exact Prod.Lex.toLex_le_toLex.mpr (.inr ⟨rfl, hab⟩)
  · refine List.Pairwise.imp_of_mem (fun {e e'} he he' hlt x hx y hy => ?_) index.bySlot.ascending
    obtain ⟨a, -, rfl⟩ := List.mem_map.mp hx
    obtain ⟨b, -, rfl⟩ := List.mem_map.mp hy
    refine Prod.Lex.toLex_le_toLex.mpr (.inl ?_)
    show index.registry.slot (index.registry.sourceAt e.1) <
      index.registry.slot (index.registry.sourceAt e'.1)
    rw [(slot_sourceAt he).2, (slot_sourceAt he').2]
    exact hlt

/-- At each origin the walk gives what a look-up gives there. -/
theorem filter_mappings (index : ReverseIndex) (s : Text) (l c : Int) :
    index.mappings.filter (·.origin = (s, l, c)) =
      (index.lookup s l c).map (Mapping.ofGenerated s l c) := by
  rw [mappings_eq, IntMap.filter_flatMap_entries index.bySlot (index.registry.slot s)]
  · rw [lookup_eq_file?, file?]
    cases hfile : index.bySlot.find? (index.registry.slot s) with
    | none => rfl
    | some file =>
      have hentry : (index.registry.slot s, file) ∈ index.bySlot.entries :=
        IntMap.find?_eq_some_iff.mp hfile
      have hsource : index.registry.sourceAt (index.registry.slot s) = s :=
        Registry.slot_inj (slot_sourceAt hentry).1 (slot_sourceAt hentry).2
      simp only [Option.map_some, Option.getD_some, hsource]
      have hcell : (fun cell : Int × Int × GeneratedPosition =>
          decide ((Mapping.ofGenerated s cell.1 cell.2.1 cell.2.2).origin = (s, l, c))) =
            fun cell => decide (Grid.place cell = toLex (l, c)) := by
        funext cell
        simp [Mapping.origin, Mapping.ofGenerated]
      rw [List.filter_map, Function.comp_def, hcell, Grid.filter_cells, List.map_map]
      rfl
  · intro e he hne
    refine List.filter_eq_nil_iff.mpr fun m hm => ?_
    obtain ⟨cell, -, rfl⟩ := List.mem_map.mp hm
    simp only [Mapping.origin, Mapping.ofGenerated, decide_eq_true_eq, Prod.mk.injEq, not_and]
    intro hsource
    rw [← (slot_sourceAt he).2, hsource] at hne
    exact absurd rfl hne

/-! ### Filing mappings -/

theorem registry_ofMappings (sources : List Text) (mappings : List Mapping) :
    (ofMappings sources mappings).registry =
      Registry.registerAll ⟨sources⟩ (mappings.map (·.source)) := by
  have hfold (index : ReverseIndex) :
      (mappings.foldl (fun index m => index.add m.source m.line m.column m.generated)
        index).registry = index.registry.registerAll (mappings.map (·.source)) := by
    induction mappings generalizing index with
    | nil => rfl
    | cons m rest ih => exact ih (index.add m.source m.line m.column m.generated)
  exact hfold (ofSources sources)

/-- Filed mappings come back in the stable sort of the slots and original positions. -/
theorem mappings_ofMappings (sources : List Text) (mappings : List Mapping) :
    (ofMappings sources mappings).mappings =
      sortOn (fun m => m.original.rank (ofMappings sources mappings).registry) mappings := by
  have hregistered : ∀ m ∈ mappings, m.source ∈ (ofMappings sources mappings).registry.sources := by
    intro m hm
    rw [registry_ofMappings, Registry.mem_sources_registerAll]
    exact .inr (List.mem_map_of_mem hm)
  refine eq_sortOn (ascending_mappings _) fun a ha => ?_
  have hsource : a.source ∈ (ofMappings sources mappings).registry.sources :=
    ha.elim (registered_mappings _ a) (hregistered a)
  -- Slots and sources determine each other, so what is of one rank is of one origin.
  have horigin : ∀ l : List Mapping,
      l.filter (fun m => decide (m.original.rank (ofMappings sources mappings).registry =
        a.original.rank (ofMappings sources mappings).registry)) =
          l.filter (·.origin = (a.source, a.line, a.column)) := by
    intro l
    refine List.filter_congr fun m _ => decide_eq_decide.mpr ?_
    rw [eq_comm, Mapping.rank_eq_iff hsource, eq_comm]
    rfl
  rw [horigin, horigin, filter_mappings, lookup_ofMappings, List.map_map]
  refine Eq.trans (List.map_congr_left fun m hm => ?_) (List.map_id _)
  have hm : m.origin = (a.source, a.line, a.column) := by simpa using (List.mem_filter.mp hm).2
  simp only [Mapping.origin, Prod.mk.injEq] at hm
  obtain ⟨h₁, h₂, h₃⟩ := hm
  simp [Mapping.ofGenerated, Mapping.generated, ← h₁, ← h₂, ← h₃]

end ReverseIndex

end SourceMaps
