import SourceMaps.Proofs.Index.Files
import SourceMaps.Proofs.Index.SlotTable
import SourceMaps.Proofs.RankedMap

/-!
# Reverse indexes on top of ranked maps

A reverse index can be kept as a ranked map of files whose ranks are a table of slots that grows
while the map is in use. The ranks of listed keys never change and no two are equal; such an index
therefore answers every change as a reverse index does and lists the same files in the same order.

## Main definitions

* `RankedIndex`: a table of slots and a ranked map of files.
* `RankedIndex.perform`, `RankedIndex.run`: changes to such an index.
* `RankedIndex.Mirrors`: agreement with a reverse index.

## Main statements

* `RankedIndex.Mirrors.perform`: agreement is kept by every change.
* `RankedIndex.mirrors_run`: it holds after every run.
-/

namespace SourceMaps

/-- A reverse index on top of a ranked map. -/
structure RankedIndex extends SlotTable where
  /-- The files, listed by the slots of their sources. -/
  files : RankedMap Text (Grid GeneratedPosition)

namespace RankedIndex

open RankedMap (InStep Plain Missing Action Agrees)

/-- Appends a source. -/
def declare (index : RankedIndex) (s : Text) : RankedIndex :=
  { index with toSlotTable := index.toSlotTable.declare s }

/-- Appends a source unless it has a slot. -/
def register (index : RankedIndex) (s : Text) : RankedIndex :=
  { index with toSlotTable := index.toSlotTable.register s }

/-- The index without files over declared sources. -/
def ofSources (sources : List Text) : RankedIndex := ⟨.ofSources sources, .empty⟩

/-- Does something to the files, with the slots that there are at that time as ranks. -/
def act {α : Type} (index : RankedIndex)
    (action : (Text → Option Nat) → Action Text (Grid GeneratedPosition) α) :
    Except (Missing Text) Unit × RankedIndex :=
  ((index.files.act (action index.slots)).1.map fun _ => (),
    { index with files := (index.files.act (action index.slots)).2 })

/-- The file of a source. -/
def file? (index : RankedIndex) (s : Text) : Option (Grid GeneratedPosition) :=
  (index.files.get s).toOption

/-- Performs a change. -/
def perform (index : RankedIndex) :
    ReverseIndex.Change → Except (Missing Text) Unit × RankedIndex
  | .declare s => (.ok (), index.declare s)
  | .register s => (.ok (), index.register s)
  | .add s line column p =>
    (index.register s).act (RankedMap.set · s (Grid.add ((index.file? s).getD ∅) line column p))
  | .setFile s file => (index.register s).act (RankedMap.set · s file)
  | .eraseFile s => index.act (RankedMap.erase · s)
  | .popFile s => index.act (RankedMap.pop · s none)
  | .popFirst => index.act RankedMap.popFirst
  | .clear => index.act RankedMap.clear

/-- The index after changes in order. -/
def run (index : RankedIndex) (changes : List ReverseIndex.Change) : RankedIndex :=
  changes.foldl (fun index change => (index.perform change).2) index

/-! ### Agreement -/

/-- The two kinds of index have the same sources, slots and files. -/
structure Mirrors (ranked : RankedIndex) (index : ReverseIndex) : Prop where
  table : ranked.toSlotTable.Mirrors index.registry
  inStep : ∃ p : Plain Text (Grid GeneratedPosition),
    InStep index.registry.slot? ranked.files p ∧ p.value = index.file?

variable {ranked : RankedIndex} {index : ReverseIndex} {s : Text}

namespace Mirrors

theorem file?_eq (h : Mirrors ranked index) (s : Text) : ranked.file? s = index.file? s := by
  obtain ⟨p, hp, hvalue⟩ := h.inStep
  rw [file?, RankedMap.get, hp.lookup_eq, hvalue]
  cases index.file? s <;> rfl

theorem mem_keys_iff (h : Mirrors ranked index) : s ∈ ranked.files.keys ↔ s ∈ index.keys := by
  obtain ⟨p, hp, hvalue⟩ := h.inStep
  rw [hp.mem_keys_iff_value, hvalue, ReverseIndex.mem_keys_iff]

/-- Both list the same files in the same order. -/
theorem keys_eq (h : Mirrors ranked index) : ranked.files.keys = index.keys := by
  obtain ⟨p, hp, -⟩ := h.inStep
  have hordered : ranked.files.keys.Pairwise index.registry.Before :=
    hp.pairwise_before fun _ _ _ hs ht => Registry.slot?_inj hs ht
  have hperm : ranked.files.keys.Perm index.keys :=
    (List.perm_ext_iff_of_nodup hp.nodup_keys index.nodup_keys).mpr fun s => h.mem_keys_iff
  exact hperm.eq_of_pairwise (fun s t _ _ hst hts => absurd hts hst.asymm) hordered
    index.pairwise_keys

/-- More sources change the ranks of no file that there is. -/
theorem of_extends (h : Mirrors ranked index) {table : SlotTable} {other : ReverseIndex}
    (htable : table.Mirrors other.registry) (hextends : other.registry.Extends index.registry)
    (hfiles : other.file? = index.file?) :
    Mirrors { ranked with toSlotTable := table } other := by
  obtain ⟨p, hp, hvalue⟩ := h.inStep
  refine ⟨htable, p, hp.of_rank_eq fun t ht => ?_, hvalue.trans hfiles.symm⟩
  exact hextends.slot?_eq (ReverseIndex.mem_sources_of_mem_keys (h.mem_keys_iff.mp ht))

theorem declare (h : Mirrors ranked index) (s : Text) :
    Mirrors (ranked.declare s) (index.declare s) :=
  h.of_extends (h.table.declare s) (Registry.extends_declare _ s) (index.file?_declare s)

theorem register (h : Mirrors ranked index) (s : Text) :
    Mirrors (ranked.register s) (index.register s) :=
  h.of_extends (h.table.register s) (Registry.extends_register _ s) (index.file?_register s)

/-! ### Files -/

/-- What a change answers and leaves agrees with the changed index, or with the index as it was if
the change fails. -/
def Follows (x : Except (Missing Text) Unit × RankedIndex) (index : ReverseIndex)
    (changed : Option ReverseIndex) : Prop :=
  x.1.toOption.isSome = changed.isSome ∧ Mirrors x.2 (changed.getD index)

section Files

variable {α : Type} {action : (Text → Option Nat) → Action Text (Grid GeneratedPosition) α}
  {p p' : Plain Text (Grid GeneratedPosition)} {left : ReverseIndex}

theorem mirrors_act (h : Mirrors ranked index)
    (hfiles : InStep index.registry.slot? (ranked.files.act (action index.registry.slot?)).2 p')
    (hregistry : left.registry = index.registry) (hvalue : left.file? = p'.value) :
    Mirrors (ranked.act action).2 left := by
  rw [RankedIndex.act, h.table.slots_eq]
  exact ⟨hregistry ▸ h.table, p', hregistry ▸ hfiles, hvalue.symm⟩

/-- If a plain map answers, so does the index, which then holds what is in that map. -/
theorem follows_of_ok {a : α} (h : Mirrors ranked index)
    (hstep : Agrees index.registry.slot? (ranked.files.act (action index.registry.slot?))
      (.ok a, p'))
    (hregistry : left.registry = index.registry) (hvalue : left.file? = p'.value) :
    Follows (ranked.act action) index (some left) := by
  refine ⟨?_, h.mirrors_act hstep.2 hregistry hvalue⟩
  rw [RankedIndex.act, h.table.slots_eq, hstep.1]
  rfl

theorem follows_of_error {e : Missing Text} (h : Mirrors ranked index)
    (hstep : Agrees index.registry.slot? (ranked.files.act (action index.registry.slot?))
      (.error e, p))
    (hvalue : p.value = index.file?) : Follows (ranked.act action) index none := by
  refine ⟨?_, h.mirrors_act hstep.2 rfl hvalue.symm⟩
  rw [RankedIndex.act, h.table.slots_eq, hstep.1]
  rfl

/-- The files of an index without one of them are those of the plain map without it. -/
theorem file?_drop (hvalue : p.value = index.file?) (hleft : left.Without index s) :
    left.file? = (p.drop s).value := by
  funext t
  rw [hleft.file?_eq, ← hvalue]
  rfl

end Files

theorem slot?_injective (index : ReverseIndex) :
    ∀ s t n, index.registry.slot? s = some n → index.registry.slot? t = some n → s = t :=
  fun _ _ _ hs ht => Registry.slot?_inj hs ht

theorem alterFile (h : Mirrors ranked index) (s : Text)
    (f : Option (Grid GeneratedPosition) → Grid GeneratedPosition) :
    Follows ((ranked.register s).act (RankedMap.set · s (f (ranked.file? s)))) index
      (some (index.alterFile s f)) := by
  have hregistered := h.register s
  obtain ⟨p, hp, hvalue⟩ := hregistered.inStep
  have hs : ((index.register s).registry.slot? s).isSome := by
    exact Registry.isSome_slot?_register index.registry s
  have hset : p.set (index.register s).registry.slot? s (f (ranked.file? s)) =
      (.ok (), p.put s (f (ranked.file? s))) := if_pos (.inr hs)
  have hstep := hp.set s (f (ranked.file? s))
  rw [hset] at hstep
  refine hregistered.follows_of_ok hstep rfl ?_
  funext t
  rw [ReverseIndex.file?_alterFile, h.file?_eq]
  show _ = if t = s then _ else p.value t
  rw [hvalue, ReverseIndex.file?_register]

theorem eraseFile (h : Mirrors ranked index) (s : Text) :
    Follows (ranked.act (RankedMap.erase · s)) index (index.eraseFile s).toOption := by
  obtain ⟨p, hp, hvalue⟩ := h.inStep
  have hstep := hp.erase (hp.find?_of_injective (slot?_injective index) (k := s))
  rw [Plain.erase, hvalue] at hstep
  by_cases hs : (index.file? s).isSome
  · obtain ⟨left, herase, hleft⟩ :=
      ReverseIndex.eraseFile_of_mem (ReverseIndex.mem_keys_iff.mpr hs)
    rw [if_pos hs] at hstep
    rw [herase]
    exact h.follows_of_ok hstep hleft.registry_eq (file?_drop hvalue hleft)
  · rw [if_neg hs] at hstep
    rw [ReverseIndex.eraseFile_of_notMem (mt ReverseIndex.mem_keys_iff.mp hs)]
    exact h.follows_of_error hstep hvalue

theorem popFile (h : Mirrors ranked index) (s : Text) :
    Follows (ranked.act (RankedMap.pop · s none)) index
      ((index.popFile s).toOption.map (·.2)) := by
  obtain ⟨p, hp, hvalue⟩ := h.inStep
  have hstep := hp.pop (hp.find?_of_injective (slot?_injective index) (k := s)) none
  cases hs : index.file? s with
  | some file =>
    obtain ⟨left, hpop, hleft⟩ := ReverseIndex.popFile_of_some hs
    rw [Plain.pop_of_some (by rw [hvalue, hs])] at hstep
    rw [hpop]
    exact h.follows_of_ok hstep hleft.registry_eq (file?_drop hvalue hleft)
  | none =>
    rw [Plain.pop_of_none (by rw [hvalue, hs])] at hstep
    rw [ReverseIndex.popFile_of_none hs]
    exact h.follows_of_error hstep hvalue

theorem popFirst (h : Mirrors ranked index) :
    Follows (ranked.act RankedMap.popFirst) index (index.popFirst.map (·.2)) := by
  obtain ⟨p, hp, hvalue⟩ := h.inStep
  have hstep := hp.popFirst
  have hfirst : p.first index.registry.slot? = (index.files.map (·.1)).head? := by
    rw [hp.first_eq, h.keys_eq]
    rfl
  match hfiles : index.files with
  | [] =>
    rw [hfiles] at hfirst
    rw [Plain.popFirst_of_none hfirst] at hstep
    rw [ReverseIndex.popFirst, hfiles]
    exact h.follows_of_error hstep hvalue
  | (s, file) :: rest =>
    obtain ⟨left, hpop, hleft⟩ := ReverseIndex.popFirst_of_cons hfiles
    have hs : p.value s = some file := by
      rw [hvalue, ← ReverseIndex.mem_files_iff, hfiles]
      exact List.mem_cons_self
    rw [hfiles] at hfirst
    rw [Plain.popFirst_of_some hfirst hs] at hstep
    rw [hpop]
    exact h.follows_of_ok hstep hleft.registry_eq (file?_drop hvalue hleft)

theorem clear (h : Mirrors ranked index) :
    Follows (ranked.act RankedMap.clear) index (some index.clear) := by
  obtain ⟨p, hp, hvalue⟩ := h.inStep
  have hclear : ranked.files.act (RankedMap.clear index.registry.slot?) = (.ok (), .empty) :=
    hp.clear
  have hstep : Agrees index.registry.slot?
      (ranked.files.act (RankedMap.clear index.registry.slot?)) (.ok (), Plain.empty) := by
    rw [hclear]
    exact ⟨rfl, InStep.empty _⟩
  exact h.follows_of_ok hstep rfl rfl

/-- A change does the same to both, and fails for both or for neither. -/
theorem perform (h : Mirrors ranked index) (change : ReverseIndex.Change) :
    Follows (ranked.perform change) index (index.change? change) := by
  cases change with
  | declare s => exact ⟨rfl, h.declare s⟩
  | register s => exact ⟨rfl, h.register s⟩
  | add s line column p =>
    exact h.alterFile s fun file => Grid.add (file.getD ∅) line column p
  | setFile s file => exact h.alterFile s fun _ => file
  | eraseFile s => exact h.eraseFile s
  | popFile s => exact h.popFile s
  | popFirst => exact h.popFirst
  | clear => exact h.clear

end Mirrors

/-- An index over declared sources agrees with the reverse index over them. -/
theorem mirrors_ofSources (sources : List Text) :
    Mirrors (ofSources sources) (.ofSources sources) :=
  ⟨SlotTable.mirrors_ofSources sources, Plain.empty, InStep.empty _, rfl⟩

/-- The two kinds of index agree after every run. -/
theorem mirrors_run (sources : List Text) (changes : List ReverseIndex.Change) :
    Mirrors ((ofSources sources).run changes) ((ReverseIndex.ofSources sources).run changes) := by
  have hrun (ranked : RankedIndex) (index : ReverseIndex) (h : Mirrors ranked index) :
      Mirrors (ranked.run changes) (index.run changes) := by
    induction changes generalizing ranked index with
    | nil => exact h
    | cons change rest ih => exact ih _ _ (h.perform change).2
  exact hrun _ _ (mirrors_ofSources sources)

end RankedIndex

end SourceMaps
