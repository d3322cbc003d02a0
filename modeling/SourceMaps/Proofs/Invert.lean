import SourceMaps.Compose
import SourceMaps.Proofs.Decode
import SourceMaps.Proofs.Index.Forward
import SourceMaps.Proofs.Index.Reverse

/-!
# Inverting a reverse index

Filing mappings by origin and inverting gives the index that files them by generated position,
except that the origins of one generated position come in the order of their ranks. The origins of a
position keep their order exactly if they were in that order before.

## Main statements

* `ReverseIndex.lookup_invert_ofMappings`: the origins after inverting are a stable sort.
* `ReverseIndex.invert_ofMap`: both ways of decoding a map, compared.
-/

namespace SourceMaps

namespace ReverseIndex

theorem registry_invert (index : ReverseIndex) : index.invert.registry = index.registry := by
  rw [invert, ForwardIndex.registry_ofMappings]
  exact Registry.registerAll_of_mem (by simpa using index.registered_mappings)

/-- A generated position has after inverting the origins of the mappings there, in the order of the
walk. -/
theorem lookup_invert (index : ReverseIndex) (line column : Int) :
    index.invert.lookup line column =
      (index.mappings.filter (·.place = toLex (line, column))).map (·.original) :=
  ForwardIndex.lookup_ofMappings _ _ line column

section Duality

variable (sources : List Text) (mappings : List Mapping)

theorem registry_invert_ofMappings :
    (ofMappings sources mappings).invert.registry =
      (ForwardIndex.ofMappings sources mappings).registry := by
  rw [registry_invert, registry_ofMappings, ForwardIndex.registry_ofMappings]

/-- Filed by origin and inverted, the origins of a generated position come in the order of their
ranks, and those of one rank as they were. -/
theorem lookup_invert_ofMappings (line column : Int) :
    (ofMappings sources mappings).invert.lookup line column =
      sortOn (OriginalPosition.rank (ForwardIndex.ofMappings sources mappings).registry)
        ((ForwardIndex.ofMappings sources mappings).lookup line column) := by
  have hregistry : (ofMappings sources mappings).registry =
      (ForwardIndex.ofMappings sources mappings).registry := by
    rw [registry_ofMappings, ForwardIndex.registry_ofMappings]
  rw [lookup_invert, mappings_ofMappings, filter_sortOn, map_sortOn fun _ => rfl,
    ForwardIndex.lookup_ofMappings, hregistry]

/-- Filed by origin and inverted, the same generated positions have origins. -/
theorem lookup_invert_ofMappings_ne_nil (line column : Int) :
    (ofMappings sources mappings).invert.lookup line column ≠ [] ↔
      (ForwardIndex.ofMappings sources mappings).lookup line column ≠ [] := by
  rw [lookup_invert_ofMappings]
  exact not_congr ⟨fun h => (h ▸ sortOn_perm _ _).nil_eq.symm,
    fun h => by rw [h]; exact List.mergeSort_nil⟩

/-- Inverting gives the forward index exactly if the origins of each generated position are in the
order of their ranks already. -/
theorem invert_ofMappings_eq_iff :
    (ofMappings sources mappings).invert = ForwardIndex.ofMappings sources mappings ↔
      ∀ line column, Ascending
        (OriginalPosition.rank (ForwardIndex.ofMappings sources mappings).registry)
        ((ForwardIndex.ofMappings sources mappings).lookup line column) := by
  constructor
  · intro h line column
    have hlookup := lookup_invert_ofMappings sources mappings line column
    rw [h] at hlookup
    exact sortOn_eq_self_iff.mp hlookup.symm
  · intro h
    refine ForwardIndex.ext_grid (registry_invert_ofMappings sources mappings) ?_
    refine (ForwardIndex.full_ofMappings _ _).ext (ForwardIndex.full_ofMappings _ _) ?_
    intro line column
    exact (lookup_invert_ofMappings sources mappings line column).trans
      (sortOn_eq_self (h line column))

end Duality

/-- A map is decoded in both directions or fails in both with the same fault, one of format.
Inverting the reverse index gives the sources and the generated positions of the forward index, and
at each position its origins in the stable sort of their ranks. So the two are equal exactly if all
origins are in that order, as they are if no position has two. -/
theorem invert_ofMap (map : SourceMap) :
    (∃ fault : Fault, fault.kind = .format ∧
      ForwardIndex.ofMap map = .error fault ∧ ReverseIndex.ofMap map = .error fault) ∨
    ∃ (forward : ForwardIndex) (reverse : ReverseIndex),
      ForwardIndex.ofMap map = .ok forward ∧ ReverseIndex.ofMap map = .ok reverse ∧
      reverse.invert.registry = forward.registry ∧
      reverse.invert.grid.keys = forward.grid.keys ∧
      (∀ line, (reverse.invert.grid.line line).keys = (forward.grid.line line).keys) ∧
      (∀ line column, reverse.invert.lookup line column =
        sortOn (OriginalPosition.rank forward.registry) (forward.lookup line column)) ∧
      (reverse.invert = forward ↔ ∀ line column,
        Ascending (OriginalPosition.rank forward.registry) (forward.lookup line column)) ∧
      ((∀ line column, (forward.lookup line column).length ≤ 1) → reverse.invert = forward) := by
  cases hmappings : map.resolved with
  | error fault =>
    refine .inl ⟨fault, SourceMap.kind_of_resolved hmappings, ?_, ?_⟩
    · rw [ForwardIndex.ofMap, hmappings, map_error]
    · rw [ReverseIndex.ofMap, hmappings, map_error]
  | ok mappings =>
    have hne := lookup_invert_ofMappings_ne_nil map.sourceNames mappings
    have hfull := ForwardIndex.full_ofMappings map.sourceNames mappings
    have hfull' : (ofMappings map.sourceNames mappings).invert.grid.Full :=
      ForwardIndex.full_ofMappings _ _
    have hiff := invert_ofMappings_eq_iff map.sourceNames mappings
    refine .inr ⟨.ofMappings map.sourceNames mappings, .ofMappings map.sourceNames mappings,
      ?_, ?_, registry_invert_ofMappings _ _, ?_, ?_, lookup_invert_ofMappings _ _, hiff, ?_⟩
    · rw [ForwardIndex.ofMap, hmappings, map_ok]
    · rw [ReverseIndex.ofMap, hmappings, map_ok]
    -- Both grids are full, so their keys are where look-ups find something.
    · refine IntMap.keys_eq_of_mem_iff fun line => ?_
      rw [hfull'.mem_keys_iff, hfull.mem_keys_iff]
      exact exists_congr fun column => hne line column
    · intro line
      refine IntMap.keys_eq_of_mem_iff fun column => ?_
      rw [hfull'.mem_keys_line_iff, hfull.mem_keys_line_iff]
      exact hne line column
    · exact fun hone => hiff.mpr fun line column => ascending_of_length_le_one (hone line column)

end ReverseIndex

end SourceMaps
