import SourceMaps.Compose
import SourceMaps.Proofs.Index.Reverse
import SourceMaps.Proofs.Outcome

/-!
# Composition of reverse indexes

Composing replaces each position by those that it leads on to, in place, so the walk through a
composition is the walk through the first index with every mapping led on. Since dropping empty
files loses nothing that a look-up would find, three stages compose to the same index in either
grouping.

## Main definitions

* `Grid.kept`: a grid unless it is empty.
* `ReverseIndex.through`: the composition with the grid of the file between.
* `Mapping.led`: a mapping led on to a final position.

## Main statements

* `ReverseIndex.mappings_through`: the walk through a composition.
* `ReverseIndex.mappings_compose`: what a composition holds, and when there is one.
* `ReverseIndex.compose_assoc`: composition is associative.
-/

namespace SourceMaps

/-- Names are inherited step by step: a position takes the nearest name on its way. -/
theorem GeneratedPosition.withName_withName (p q : GeneratedPosition) (name : Option Text) :
    (p.withName q.name).withName name = p.withName (q.withName name).name := by
  simp [withName, Option.or_assoc]

/-- The mapping led on to a final position, which keeps its name or inherits that of the mapping. -/
def Mapping.led (m : Mapping) (q : GeneratedPosition) : Mapping :=
  .ofGenerated m.source m.line m.column (q.withName m.name)

namespace Grid

variable (first second third : Grid GeneratedPosition)

theorem lookup_compose (l c : Int) :
    (compose first second).lookup l c =
      (first.lookup l c).flatMap fun p =>
        (second.lookup p.line p.column).map (·.withName p.name) :=
  lookup_refine _ first l c

/-- Three grids compose to the same grid in either grouping. -/
theorem compose_compose :
    compose (compose first second) third = compose first (compose second third) := by
  have hsteps : (fun p : GeneratedPosition =>
      ((second.lookup p.line p.column).map (·.withName p.name)).flatMap fun q =>
        (third.lookup q.line q.column).map (·.withName q.name)) =
      fun p => ((compose second third).lookup p.line p.column).map (·.withName p.name) := by
    funext p
    rw [lookup_compose, List.flatMap_map, List.map_flatMap]
    congr 1
    funext q
    rw [List.map_map]
    refine List.map_congr_left fun r _ => ?_
    exact (r.withName_withName q p.name).symm
  unfold compose at hsteps ⊢
  rw [refine_refine, hsteps]

@[simp]
theorem compose_empty : compose ∅ second = ∅ := rfl

/-- Nothing leads on through an empty grid. -/
theorem compose_empty_right : compose first ∅ = ∅ := by
  refine (full_refine _ first).ext full_empty fun l c => ?_
  show (compose first ∅).lookup l c = _
  rw [lookup_compose]
  simp

/-- The grid unless it is empty. -/
def kept {α : Type} (grid : Grid α) : Option (Grid α) := if grid.isEmpty then none else some grid

/-- Dropping a grid that is empty loses nothing. -/
@[simp]
theorem getD_kept {α : Type} (grid : Grid α) : grid.kept.getD ∅ = grid := by
  unfold kept
  split
  · next hempty => rw [IntMap.isEmpty_iff.mp hempty, Option.getD_none]
  · rfl

end Grid

namespace ReverseIndex

/-- The composition with the grid of the file between. -/
def through (first : ReverseIndex) (target : Grid GeneratedPosition) : ReverseIndex :=
  first.filterMapFiles fun file => (Grid.compose file target).kept

theorem compose_some (first second : ReverseIndex) (between : Text) :
    first.compose second (some between) = .ok (first.through ((second.file? between).getD ∅)) := rfl

/-- If the second index has one source, that is the file between. -/
theorem compose_none_of_eq (first : ReverseIndex) {second : ReverseIndex} {between : Text}
    (h : second.registry.sources = [between]) :
    first.compose second none = first.compose second (some between) := by
  unfold compose intermediateFile
  rw [h]

/-- If the second index has no source or several, the file between cannot be told. -/
theorem compose_none_of_ne (first : ReverseIndex) {second : ReverseIndex}
    (h : second.registry.sources.length ≠ 1) :
    first.compose second none =
      .error (.ambiguousIntermediate second.registry.sources.length) := by
  unfold compose intermediateFile
  match hsources : second.registry.sources with
  | [] => rfl
  | [_] => simp [hsources] at h
  | _ :: _ :: _ => rfl

/-! ### Files of a composition -/

@[simp]
theorem registry_through (first : ReverseIndex) (target : Grid GeneratedPosition) :
    (first.through target).registry = first.registry := rfl

theorem file?_through (first : ReverseIndex) (target : Grid GeneratedPosition) (s : Text) :
    (first.through target).file? s =
      (first.file? s).bind fun file => (Grid.compose file target).kept :=
  IntMap.find?_filterMap _ first.bySlot _

/-- Files that are dropped would have been empty. -/
theorem getD_file?_through (first : ReverseIndex) (target : Grid GeneratedPosition) (s : Text) :
    ((first.through target).file? s).getD ∅ = Grid.compose ((first.file? s).getD ∅) target := by
  rw [file?_through]
  cases first.file? s with
  | none => rfl
  | some file => exact Grid.getD_kept _

/-- Going through two grids is going through their composition. -/
theorem through_through (first : ReverseIndex) (second third : Grid GeneratedPosition) :
    (first.through second).through third = first.through (Grid.compose second third) := by
  refine ext_bySlot rfl fun k => ?_
  simp only [through, filterMapFiles, IntMap.find?_filterMap, Option.bind_assoc]
  refine congrArg _ (funext fun file => ?_)
  rw [← Grid.compose_compose]
  unfold Grid.kept
  -- A file that is dropped after the first step composes to nothing in the second.
  split
  · next hempty => simp [IntMap.isEmpty_iff.mp hempty, IntMap.isEmpty_iff]
  · rfl

/-! ### The walk through a composition -/

/-- The walk through a composition leads every mapping on, in place. -/
theorem mappings_through (first : ReverseIndex) (target : Grid GeneratedPosition) :
    (first.through target).mappings =
      first.mappings.flatMap fun m =>
        (target.lookup m.generatedLine m.generatedColumn).map m.led := by
  have hfile (s : Text) (file : Grid GeneratedPosition) :
      ((Grid.compose file target).kept.map fun composed => (Grid.cells composed).map fun cell =>
        Mapping.ofGenerated s cell.1 cell.2.1 cell.2.2).getD [] =
          (Grid.cells file).flatMap fun cell =>
            (target.lookup cell.2.2.line cell.2.2.column).map
              (Mapping.ofGenerated s cell.1 cell.2.1 cell.2.2).led := by
    have hcells : ((Grid.compose file target).kept.map fun composed =>
        (Grid.cells composed).map fun cell =>
          Mapping.ofGenerated s cell.1 cell.2.1 cell.2.2).getD [] =
            (Grid.compose file target).cells.map fun cell =>
              Mapping.ofGenerated s cell.1 cell.2.1 cell.2.2 := by
      unfold Grid.kept
      split
      · next hempty => rw [IntMap.isEmpty_iff.mp hempty]; rfl
      · rfl
    rw [hcells, Grid.compose, Grid.cells_refine, List.map_flatMap]
    simp only [List.map_map]
    rfl
  -- A file that is dropped would have contributed nothing to the walk.
  rw [mappings_eq, mappings_eq, List.flatMap_assoc]
  refine (IntMap.flatMap_filterMap _ first.bySlot _).trans ?_
  simp only [hfile, List.flatMap_map]
  rfl

/-- A mapping of a composition leads from one of the first index to where one of the second is. -/
theorem exists_of_mem_compose {first second merged : ReverseIndex} {between : Option Text}
    (h : first.compose second between = .ok merged) {m : Mapping} (hm : m ∈ merged.mappings) :
    ∃ p ∈ first.mappings, ∃ q ∈ second.mappings, m = p.led q.generated := by
  obtain ⟨file, -, hmerged⟩ := bind_eq_ok_iff.mp h
  obtain rfl : first.through ((second.file? file).getD ∅) = merged := Except.ok.inj hmerged
  rw [mappings_through] at hm
  obtain ⟨p, hp, hm⟩ := List.mem_flatMap.mp hm
  obtain ⟨q, hq, rfl⟩ := List.mem_map.mp hm
  -- The mapping lies where its final position does, which is one of the second index.
  rw [← lookup_eq_file?] at hq
  have hfound : Mapping.ofGenerated file p.generatedLine p.generatedColumn q ∈
      second.mappings.filter (·.origin = (file, p.generatedLine, p.generatedColumn)) := by
    rw [filter_mappings]
    exact List.mem_map_of_mem hq
  exact ⟨p, hp, _, (List.mem_filter.mp hfound).1, rfl⟩

/-- The lines of a composition are those that the second index leads to. -/
theorem lines_of_compose {first second merged : ReverseIndex} {between : Option Text}
    (h : first.compose second between = .ok merged)
    (lines : ∀ m ∈ second.mappings, 0 ≤ m.generatedLine) :
    ∀ m ∈ merged.mappings, 0 ≤ m.generatedLine := by
  intro m hm
  obtain ⟨p, -, q, hq, rfl⟩ := exists_of_mem_compose h hm
  exact lines q hq

/-- A file of a composition is what is kept of one file of the first index. -/
theorem exists_kept_of_mem_files {first : ReverseIndex} {target file : Grid GeneratedPosition}
    {s : Text} (h : (s, file) ∈ (first.through target).files) :
    ∃ before, (Grid.compose before target).kept = some file := by
  obtain ⟨entry, hentry, heq⟩ := List.mem_map.mp h
  obtain ⟨-, rfl⟩ := Prod.mk.inj heq
  obtain ⟨⟨slot, before⟩, -, hkept⟩ := List.mem_filterMap.mp hentry
  obtain ⟨composed, hcomposed, rfl⟩ := Option.map_eq_some_iff.mp hkept
  exact ⟨before, hcomposed⟩

/-- What is left of a file is neither empty nor holds anything empty. -/
theorem full_of_mem_files {first : ReverseIndex} {target file : Grid GeneratedPosition} {s : Text}
    (h : (s, file) ∈ (first.through target).files) : file ≠ ∅ ∧ file.Full := by
  obtain ⟨before, hkept⟩ := exists_kept_of_mem_files h
  simp only [Grid.kept, Option.ite_none_left_eq_some, Option.some.injEq] at hkept
  obtain ⟨hne, rfl⟩ := hkept
  exact ⟨fun hempty => hne (IntMap.isEmpty_iff.mpr hempty), Grid.full_refine _ before⟩

/-- Without a file between, nothing is left. -/
theorem files_through_empty (first : ReverseIndex) : (first.through ∅).files = [] := by
  refine List.eq_nil_iff_forall_not_mem.mpr fun ⟨s, file⟩ hfile => ?_
  obtain ⟨before, hkept⟩ := exists_kept_of_mem_files hfile
  rw [Grid.compose_empty_right] at hkept
  cases hkept

/-- A composition leads every mapping of the first index on through the file between, in order and
in place, and holds nothing else: it has the sources of the first index, keeps nothing empty, and is
empty if the second index does not hold the file between. If that file is not named it is the only
source of the second index; there must be exactly one. -/
theorem mappings_compose (first second : ReverseIndex) :
    (∀ between : Text, ∃ result : ReverseIndex,
      first.compose second (some between) = .ok result ∧
      (result.mappings = first.mappings.flatMap fun m =>
        (second.lookup between m.generatedLine m.generatedColumn).map m.led) ∧
      result.registry = first.registry ∧
      (∀ s file, (s, file) ∈ result.files → file ≠ ∅ ∧ file.Full) ∧
      (second.file? between = none → result.files = [])) ∧
    (∀ between : Text, second.registry.sources = [between] →
      first.compose second none = first.compose second (some between)) ∧
    (second.registry.sources.length ≠ 1 →
      ∃ fault : Fault, fault.kind = .value ∧ first.compose second none = .error fault) := by
  refine ⟨fun between => ⟨_, compose_some first second between, ?_, rfl, ?_, fun hnone => ?_⟩,
    fun between hsources => compose_none_of_eq first hsources,
    fun hlength => ⟨_, rfl, compose_none_of_ne first hlength⟩⟩
  · rw [mappings_through]
    simp only [lookup_eq_file?]
  · exact fun s file hfile => full_of_mem_files hfile
  · rw [hnone]
    exact files_through_empty first

/-! ### Associativity -/

/-- With both files between named, both groupings lead through the composition of the later
stages. -/
theorem compose_bind_compose (a b c : ReverseIndex) (between after : Text) :
    let result := a.through
      (Grid.compose ((b.file? between).getD ∅) ((c.file? after).getD ∅))
    (a.compose b (some between) >>= fun ab => ab.compose c (some after)) = .ok result ∧
      (b.compose c (some after) >>= fun bc => a.compose bc (some between)) = .ok result := by
  constructor
  · show Except.ok ((a.through ((b.file? between).getD ∅)).through ((c.file? after).getD ∅)) = _
    rw [through_through]
  · show Except.ok (a.through (((b.through ((c.file? after).getD ∅)).file? between).getD ∅)) = _
    rw [getD_file?_through]

/-- Three stages compose to the same index in either grouping, whatever the files between are named.
If they are not named, both groupings need one source in the second and in the third index; with
that they agree, and without it both fail. -/
theorem compose_assoc (a b c : ReverseIndex) :
    (∀ between after : Text, ∃ result : ReverseIndex,
      (a.compose b (some between) >>= fun ab => ab.compose c (some after)) = .ok result ∧
      (b.compose c (some after) >>= fun bc => a.compose bc (some between)) = .ok result) ∧
    if b.registry.sources.length = 1 ∧ c.registry.sources.length = 1 then
      ∃ result : ReverseIndex,
        (a.compose b none >>= fun ab => ab.compose c none) = .ok result ∧
        (b.compose c none >>= fun bc => a.compose bc none) = .ok result
    else
      ∃ fault fault' : Fault, fault.kind = .value ∧ fault'.kind = .value ∧
        (a.compose b none >>= fun ab => ab.compose c none) = .error fault ∧
        (b.compose c none >>= fun bc => a.compose bc none) = .error fault' := by
  refine ⟨fun between after => ⟨_, compose_bind_compose a b c between after⟩, ?_⟩
  let ambiguous (index : ReverseIndex) : Fault :=
    .ambiguousIntermediate index.registry.sources.length
  by_cases hb : b.registry.sources.length = 1
  · obtain ⟨between, hbetween⟩ := List.length_eq_one_iff.mp hb
    by_cases hc : c.registry.sources.length = 1
    · obtain ⟨after, hafter⟩ := List.length_eq_one_iff.mp hc
      rw [if_pos ⟨hb, hc⟩]
      obtain ⟨hleft, hright⟩ := compose_bind_compose a b c between after
      -- The composition of the later stages has the sources of the second index.
      have hregistry : (b.through ((c.file? after).getD ∅)).registry.sources = [between] := hbetween
      refine ⟨_, Eq.trans ?_ hleft, Eq.trans ?_ hright⟩
      · simp only [compose_none_of_eq _ hbetween, compose_none_of_eq _ hafter]
      · rw [compose_none_of_eq b hafter, compose_some]
        exact compose_none_of_eq a hregistry
    · rw [if_neg fun h => hc h.2]
      refine ⟨ambiguous c, ambiguous c, rfl, rfl, ?_, ?_⟩
      · rw [compose_none_of_eq a hbetween, compose_some]
        exact compose_none_of_ne _ hc
      · rw [compose_none_of_ne b hc]
        rfl
  · rw [if_neg fun h => hb h.1]
    have hleft : (a.compose b none >>= fun ab => ab.compose c none) = .error (ambiguous b) := by
      rw [compose_none_of_ne a hb]
      rfl
    by_cases hc : c.registry.sources.length = 1
    · obtain ⟨after, hafter⟩ := List.length_eq_one_iff.mp hc
      refine ⟨ambiguous b, ambiguous b, rfl, rfl, hleft, ?_⟩
      rw [compose_none_of_eq b hafter, compose_some]
      show a.compose (b.through _) none = _
      exact compose_none_of_ne a hb
    · refine ⟨ambiguous b, ambiguous c, rfl, rfl, hleft, ?_⟩
      rw [compose_none_of_ne b hc]
      rfl

end ReverseIndex

end SourceMaps
