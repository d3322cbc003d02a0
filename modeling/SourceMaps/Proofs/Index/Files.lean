import SourceMaps.Proofs.Index.Reverse

/-!
# Reverse indexes: their files

The files of a reverse index are listed by the slots of their sources, each source once. Removing a
file takes it, and nothing else, off this list.

## Main definitions

* `ReverseIndex.keys`: the sources that have a file.
* `ReverseIndex.Without`: an index that lacks one file of another one.
* `ReverseIndex.Change`, `ReverseIndex.step`, `ReverseIndex.run`: changes, one after the other.

## Main statements

* `ReverseIndex.mem_files_iff`, `ReverseIndex.pairwise_keys`: the files and their order.
* `ReverseIndex.eraseFile_of_mem`, `ReverseIndex.popFile_of_some`, `ReverseIndex.popFirst_of_cons`:
  what is left when a file is removed.
-/

namespace SourceMaps.ReverseIndex

variable {index left : ReverseIndex} {s t : Text} {file : Grid GeneratedPosition}

/-- The sources that have a file, in the order of the files. -/
def keys (index : ReverseIndex) : List Text := index.files.map (·.1)

theorem mem_files_iff : (s, file) ∈ index.files ↔ index.file? s = some file := by
  rw [file?, IntMap.find?_eq_some_iff]
  constructor
  · intro hfile
    obtain ⟨entry, hentry, heq⟩ := List.mem_map.mp hfile
    obtain ⟨rfl, rfl⟩ := Prod.mk.inj heq
    rw [(slot_sourceAt hentry).2]
    exact hentry
  · intro hentry
    have hsource : index.registry.sourceAt (index.registry.slot s) = s :=
      Registry.slot_inj (slot_sourceAt hentry).1 (slot_sourceAt hentry).2
    exact List.mem_map.mpr ⟨_, hentry, congrArg (·, file) hsource⟩

theorem mem_keys_iff : s ∈ index.keys ↔ (index.file? s).isSome := by
  rw [keys, List.mem_map, Option.isSome_iff_exists]
  constructor
  · rintro ⟨⟨s, file⟩, hfile, rfl⟩
    exact ⟨file, mem_files_iff.mp hfile⟩
  · rintro ⟨file, hfile⟩
    exact ⟨(s, file), mem_files_iff.mpr hfile, rfl⟩

theorem mem_sources_of_mem_keys (h : s ∈ index.keys) : s ∈ index.registry.sources := by
  by_contra hs
  rw [mem_keys_iff, file?_of_notMem hs] at h
  cases h

/-- Files come in the order of the slots of their sources. -/
theorem pairwise_keys (index : ReverseIndex) : index.keys.Pairwise index.registry.Before := by
  rw [keys, files, List.map_map]
  refine List.pairwise_map.mpr (index.bySlot.ascending.imp_of_mem fun {a b} ha hb hlt => ?_)
  obtain ⟨hmem, hslot⟩ := slot_sourceAt ha
  obtain ⟨hmem', hslot'⟩ := slot_sourceAt hb
  refine ⟨_, _, Registry.slot?_eq hmem, Registry.slot?_eq hmem', ?_⟩
  rw [← hslot, ← hslot'] at hlt
  simpa [Registry.slot] using hlt

theorem nodup_keys (index : ReverseIndex) : index.keys.Nodup :=
  index.pairwise_keys.imp Registry.Before.ne

/-! ### Removing files -/

/-- An index that has the sources of another one and its files, except that of one source. -/
structure Without (left index : ReverseIndex) (s : Text) : Prop where
  registry_eq : left.registry = index.registry
  files_eq : left.files = index.files.filter (·.1 ≠ s)

theorem Without.file?_eq (h : left.Without index s) (t : Text) :
    left.file? t = if t = s then none else index.file? t := by
  refine Option.ext fun file => ?_
  rw [← mem_files_iff, h.files_eq, List.mem_filter, mem_files_iff]
  by_cases ht : t = s
  · simp [ht]
  · simp [ht]

theorem eraseFile_of_mem (h : s ∈ index.keys) :
    ∃ left, index.eraseFile s = .ok left ∧ left.Without index s := by
  have hslot : index.registry.slot s ∈ index.bySlot.keys := by
    rw [mem_keys_iff, Option.isSome_iff_exists] at h
    exact IntMap.mem_keys_iff.mpr h
  obtain ⟨bySlot, herase⟩ := Option.isSome_iff_exists.mp (IntMap.isSome_erase?_iff.mpr hslot)
  have hregistered (k : Int) (hk : k ∈ bySlot.keys) :=
    index.registered k (IntMap.mem_keys_of_erase? herase hk)
  refine ⟨⟨index.registry, bySlot, hregistered⟩, ?_, rfl, ?_⟩
  · unfold eraseFile
    split
    · next found hfound =>
      obtain rfl : bySlot = found := Option.some.inj (herase.symm.trans hfound)
      rfl
    · next hnone => rw [herase] at hnone; cases hnone
  · rw [files, files, IntMap.entries_of_erase? herase, List.filter_map]
    refine congrArg _ (List.filter_congr fun entry hentry => decide_eq_decide.mpr (not_congr ?_))
    obtain ⟨hmem, hslot⟩ := slot_sourceAt hentry
    rw [← hslot]
    exact ⟨fun heq => Registry.slot_inj hmem heq, fun heq => congrArg _ heq⟩

theorem eraseFile_of_notMem (h : s ∉ index.keys) :
    index.eraseFile s = .error (.unknownSource s) := by
  have hslot : index.registry.slot s ∉ index.bySlot.keys := by
    rw [mem_keys_iff, Option.isSome_iff_exists] at h
    exact fun hk => h (IntMap.mem_keys_iff.mp hk)
  unfold eraseFile
  split
  · next found hfound =>
    exact absurd (IntMap.isSome_erase?_iff.mp (by rw [hfound]; rfl)) hslot
  · rfl

theorem popFile_of_some (h : index.file? s = some file) :
    ∃ left, index.popFile s = .ok (file, left) ∧ left.Without index s := by
  obtain ⟨left, herase, hleft⟩ := eraseFile_of_mem (mem_keys_iff.mpr (by rw [h]; rfl))
  refine ⟨left, ?_, hleft⟩
  rw [popFile, h, herase]
  rfl

theorem popFile_of_none (h : index.file? s = none) :
    index.popFile s = .error (.unknownSource s) := by
  rw [popFile, h]

theorem popFirst_of_cons {rest : List (Text × Grid GeneratedPosition)}
    (h : index.files = (s, file) :: rest) :
    ∃ left, index.popFirst = some ((s, file), left) ∧ left.Without index s := by
  have hs : s ∈ index.keys := by simp [keys, h]
  obtain ⟨left, herase, hleft⟩ := eraseFile_of_mem hs
  refine ⟨left, ?_, hleft⟩
  rw [popFirst, h]
  show ((index.eraseFile s).toOption).map ((s, file), ·) = _
  rw [herase]
  rfl

/-! ### Changes -/

/-- A change to an index. -/
inductive Change where
  | declare (source : Text)
  | register (source : Text)
  | add (source : Text) (line column : Int) (position : GeneratedPosition)
  | setFile (source : Text) (file : Grid GeneratedPosition)
  | eraseFile (source : Text)
  | popFile (source : Text)
  | popFirst
  | clear

/-- The changed index, unless the change fails. -/
def change? (index : ReverseIndex) : Change → Option ReverseIndex
  | .declare s => some (index.declare s)
  | .register s => some (index.register s)
  | .add s line column p => some (index.add s line column p)
  | .setFile s file => some (index.setFile s file)
  | .eraseFile s => (index.eraseFile s).toOption
  | .popFile s => (index.popFile s).toOption.map (·.2)
  | .popFirst => index.popFirst.map (·.2)
  | .clear => some index.clear

/-- The index after a change; one that fails leaves it. -/
def step (index : ReverseIndex) (change : Change) : ReverseIndex :=
  (index.change? change).getD index

/-- The index after changes in order. -/
def run (index : ReverseIndex) (changes : List Change) : ReverseIndex := changes.foldl step index

end SourceMaps.ReverseIndex
