import SourceMaps.Index.Basic
import SourceMaps.Proofs.Index.Ranked
import SourceMaps.Proofs.Index.RankedForward

/-!
# Indexes: what changes keep

However an index is changed, its sources only grow at their end, and a source keeps the slot that it
got when it was first declared. The files of a reverse index belong to its sources and follow their
slots, and removing one of them leaves the sources, the slots and the other files.

## Main definitions

* `Index.Extends`: an index whose sources have grown.
* `Index.Consistent`: the slots of an index are the first positions of its sources.
* `ReverseIndex.Ordered`, `ReverseIndex.Deletes`: the order of files, and what removing them leaves.

## Main statements

* `ReverseIndex.extends_step`: what one change does to the sources.
* `Index.sources_run`: what whole runs keep.
-/

namespace SourceMaps

namespace Index

variable {index : Index} {s t : Text} {n : Nat}

theorem slotOf_eq_ok_iff : index.slotOf s = .ok n ↔ index.registry.slot? s = some n := by
  unfold slotOf
  cases index.registry.slot? s <;> simp

theorem toOption_slotOf : (index.slotOf s).toOption = index.registry.slot? s := by
  unfold slotOf
  cases index.registry.slot? s <;> rfl

/-- An index whose sources are those of an earlier one, and perhaps more behind them. The slots of
the earlier sources are the same. -/
structure Extends (later earlier : Index) : Prop where
  sources_prefix : earlier.sources <+: later.sources
  slotOf_eq : ∀ s ∈ earlier.sources, later.slotOf s = earlier.slotOf s

/-- The slot of a source is its first position, and what is no source has none. -/
structure Consistent (index : Index) : Prop where
  slotOf_eq_ok_iff : ∀ s n, index.slotOf s = .ok n ↔
    index.sources[n]? = some s ∧ ∀ i < n, index.sources[i]? ≠ some s
  slotOf_of_mem : ∀ s ∈ index.sources, ∃ n, index.slotOf s = .ok n
  slotOf_of_notMem : ∀ s, s ∉ index.sources → index.slotOf s = .error (.unknownSource s)
  slotOf_injective : ∀ s t n, index.slotOf s = .ok n → index.slotOf t = .ok n → s = t

theorem extends_of_registry {later earlier : Index}
    (h : later.registry.Extends earlier.registry) : later.Extends earlier := by
  refine ⟨h, fun s hs => ?_⟩
  rw [slotOf, slotOf, h.slot?_eq hs]

theorem consistent (index : Index) : index.Consistent where
  slotOf_eq_ok_iff s n := by
    rw [slotOf_eq_ok_iff]
    exact Registry.slot?_eq_some_iff
  slotOf_of_mem s hs := ⟨_, slotOf_eq_ok_iff.mpr (Registry.slot?_eq hs)⟩
  slotOf_of_notMem s hs := by
    have hnone : index.registry.slot? s = none := Registry.slot?_eq_none_iff.mpr hs
    rw [slotOf, hnone]
  slotOf_injective s t n hs ht :=
    Registry.slot?_inj (slotOf_eq_ok_iff.mp hs) (slotOf_eq_ok_iff.mp ht)

end Index

/-! ### Reverse indexes -/

namespace ReverseIndex

/-- Files belong to sources, each to one, and come in the order of their slots. -/
structure Ordered (index : ReverseIndex) : Prop where
  mem_sources : ∀ s ∈ index.keys, s ∈ index.registry.sources
  ascending : index.keys.Pairwise fun s t => ∃ i j, (Index.reverse index).slotOf s = .ok i ∧
    (Index.reverse index).slotOf t = .ok j ∧ i < j

/-- Removing a file takes just that file and answers what there was; a file that is not there cannot
be removed. -/
structure Deletes (index : ReverseIndex) : Prop where
  eraseFile : ∀ s ∈ index.keys, ∃ left, index.eraseFile s = .ok left ∧ left.Without index s
  eraseFile_missing : ∀ s, s ∉ index.keys → index.eraseFile s = .error (.unknownSource s)
  popFile : ∀ s file, (s, file) ∈ index.files →
    ∃ left, index.popFile s = .ok (file, left) ∧ left.Without index s
  popFile_missing : ∀ s, s ∉ index.keys → index.popFile s = .error (.unknownSource s)
  popFirst : ∀ s file rest, index.files = (s, file) :: rest →
    ∃ left, index.popFirst = some ((s, file), left) ∧ left.Without index s
  popFirst_missing : index.files = [] → index.popFirst = none
  clear : index.clear.registry = index.registry ∧ index.clear.files = []

theorem ordered (index : ReverseIndex) : index.Ordered := by
  refine ⟨fun s hs => mem_sources_of_mem_keys hs, index.pairwise_keys.imp ?_⟩
  rintro s t ⟨i, j, hi, hj, hlt⟩
  exact ⟨i, j, Index.slotOf_eq_ok_iff.mpr hi, Index.slotOf_eq_ok_iff.mpr hj, hlt⟩

theorem deletes (index : ReverseIndex) : index.Deletes where
  eraseFile s hs := eraseFile_of_mem hs
  eraseFile_missing s hs := eraseFile_of_notMem hs
  popFile s file hfile := popFile_of_some (mem_files_iff.mp hfile)
  popFile_missing s hs := popFile_of_none (by simpa [mem_keys_iff] using hs)
  popFirst s file rest hfiles := popFirst_of_cons hfiles
  popFirst_missing hfiles := by rw [ReverseIndex.popFirst, hfiles]
  clear := ⟨rfl, rfl⟩

/-- Declaring and registering append a source at most; other changes leave the sources. -/
theorem extends_step (index : ReverseIndex) (change : Change) :
    (index.step change).registry.Extends index.registry := by
  have hleft {s : Text} {left : ReverseIndex} (h : left.Without index s) :
      left.registry.Extends index.registry := h.registry_eq ▸ .refl _
  rw [step]
  cases change with
  | declare s => exact Registry.extends_declare _ s
  | register s | add s | setFile s => exact Registry.extends_register _ s
  | eraseFile s =>
    by_cases hs : s ∈ index.keys
    · obtain ⟨left, herase, h⟩ := eraseFile_of_mem hs
      rw [change?, herase]
      exact hleft h
    · rw [change?, eraseFile_of_notMem hs]
      exact .refl _
  | popFile s =>
    cases hfile : index.file? s with
    | some file =>
      obtain ⟨left, hpop, h⟩ := popFile_of_some hfile
      rw [change?, hpop]
      exact hleft h
    | none =>
      rw [change?, popFile_of_none hfile]
      exact .refl _
  | popFirst =>
    match hfiles : index.files with
    | [] =>
      rw [change?, popFirst, hfiles]
      exact .refl _
    | (s, file) :: rest =>
      obtain ⟨left, hpop, h⟩ := popFirst_of_cons hfiles
      rw [change?, hpop]
      exact hleft h
  | clear => exact .refl _

theorem extends_run (index : ReverseIndex) (changes : List Change) :
    (index.run changes).registry.Extends index.registry := by
  induction changes generalizing index with
  | nil => exact .refl _
  | cons change rest ih => exact (ih (index.step change)).trans (index.extends_step change)

end ReverseIndex

/-! ### Forward indexes -/

namespace ForwardIndex

theorem extends_step (index : ForwardIndex) (change : Change) :
    (index.step change).registry.Extends index.registry := by
  cases change with
  | declare s => exact Registry.extends_declare _ s
  | register s => exact Registry.extends_register _ s
  | add line column p => exact Registry.extends_register _ p.source

theorem extends_run (index : ForwardIndex) (changes : List Change) :
    (index.run changes).registry.Extends index.registry := by
  induction changes generalizing index with
  | nil => exact .refl _
  | cons change rest ih => exact (ih (index.step change)).trans (index.extends_step change)

end ForwardIndex

/-! ### Runs -/

/-- After any changes an index has the sources and slots it had, and perhaps more sources behind
them; its slots are first positions, its files or lines are in order, and files can be removed one
by one. A reverse index that keeps its files in a ranked map, with a growing table of slots as
ranks, goes through the same changes in the same way, and so does a forward index that keeps such a
table beside ranked maps of its lines and columns. -/
theorem Index.sources_run :
    (∀ (start : ReverseIndex) (changes : List ReverseIndex.Change),
      let later := start.run changes
      (Index.reverse later).Extends (.reverse start) ∧ (Index.reverse later).Consistent ∧
        later.Ordered ∧ later.Deletes) ∧
    (∀ (start : ForwardIndex) (changes : List ForwardIndex.Change),
      let later := start.run changes
      (Index.forward later).Extends (.forward start) ∧ (Index.forward later).Consistent ∧
        later.grid.keys.Pairwise (· < ·)) ∧
    (∀ (sources : List Text) (changes : List ReverseIndex.Change),
      let ranked := (RankedIndex.ofSources sources).run changes
      let index := (ReverseIndex.ofSources sources).run changes
      ranked.sources = index.registry.sources ∧
        (∀ s, ranked.slots s = ((Index.reverse index).slotOf s).toOption) ∧
        ranked.files.keys = index.keys ∧ (∀ s, ranked.file? s = index.file? s) ∧
        ∀ change : ReverseIndex.Change,
          (ranked.perform change).1.toOption.isSome = (index.change? change).isSome) ∧
    ∀ (sources : List Text) (changes : List ForwardIndex.Change),
      let index := (ForwardIndex.ofSources sources).run changes
      ∃ ranked, (RankedForwardIndex.ofSources sources).run? changes = some ranked ∧
        ranked.sources = index.registry.sources ∧
        (∀ s, ranked.slots s = ((Index.forward index).slotOf s).toOption) ∧
        ranked.lines.keys = index.grid.keys ∧ ranked.lines.Mirrors index.grid := by
  refine ⟨fun start changes => ?_, fun start changes => ?_, fun sources changes => ?_,
    fun sources changes => ?_⟩
  · exact ⟨extends_of_registry (start.extends_run changes), consistent _,
      (start.run changes).ordered, (start.run changes).deletes⟩
  · exact ⟨extends_of_registry (start.extends_run changes), consistent _,
      (start.run changes).grid.pairwise_keys⟩
  · have h := RankedIndex.mirrors_run sources changes
    refine ⟨h.table.sources_eq, fun s => ?_, h.keys_eq, h.file?_eq,
      fun change => (h.perform change).1⟩
    rw [h.table.slots_eq, toOption_slotOf]
    rfl
  · obtain ⟨ranked, hrun, h⟩ := RankedForwardIndex.mirrors_run? sources changes
    refine ⟨ranked, hrun, h.table.sources_eq, fun s => ?_, h.lines.keys_eq, h.lines⟩
    rw [h.table.slots_eq, toOption_slotOf]
    rfl

end SourceMaps
