import Mathlib.Data.List.Basic
import SourceMaps.Index.Registry
import SourceMaps.Proofs.RankedMap.Listing

/-!
# Registries: sources and slots

Registered sources and their slots determine each other.

## Main definitions

* `withNew`: a list with what is new to it behind it.
* `Registry.Before`: the order of sources by their slots.
* `Registry.Extends`: registries that have grown.

## Main statements

* `Registry.slot_inj`, `Registry.sourceAt_slot`: from a source to its slot and back.
* `Registry.slot?_eq`: the two forms of the slot agree.
* `Registry.slot?_eq_some_iff`, `Registry.slot?_inj`: slots are first positions.
* `Registry.Extends.slot?_eq`: the slots of sources never change.
* `Registry.registerAll_of_mem`: sources that are there are not appended.
* `Registry.sources_registerAll`: those that are new are appended where they come first.
-/

namespace SourceMaps

theorem idxOf?_of_mem {α : Type} [BEq α] [LawfulBEq α] {items : List α} {a : α}
    (h : a ∈ items) : items.idxOf? a = some (items.idxOf a) := by
  induction items with
  | nil => simp at h
  | cons b rest ih =>
    rw [List.idxOf?_cons]
    by_cases hb : b = a
    · simp [hb]
    · have hrest : a ∈ rest := (List.mem_cons.mp h).resolve_left (Ne.symm hb)
      simp [hb, ih hrest, List.idxOf_cons_ne rest hb]

/-! ### New items -/

section New

variable {α : Type} [DecidableEq α] {items added : List α} {a : α}

/-- A list and, behind it, the items of another one that are new to it, each of them once, in the
order in which they first come. -/
def withNew (items added : List α) : List α := items ++ (added.filter (· ∉ items)).eraseDups

theorem withNew_nil (items : List α) : withNew items [] = items := List.append_nil items

theorem withNew_cons_of_mem (h : a ∈ items) : withNew items (a :: added) = withNew items added := by
  rw [withNew, List.filter_cons_of_neg (by simpa using h), withNew]

theorem withNew_cons_of_notMem (h : a ∉ items) :
    withNew items (a :: added) = withNew (items ++ [a]) added := by
  have hlater : (added.filter (· ∉ items)).filter (fun b => !b == a) =
      added.filter (· ∉ items ++ [a]) := by
    rw [List.filter_filter]
    apply List.filter_congr
    intro b _
    by_cases hb : b = a
    · simp [hb]
    · simp [hb]
  rw [withNew, List.filter_cons_of_pos (by simpa using h), List.eraseDups_cons, hlater,
    List.append_cons, withNew]

end New

namespace Registry

variable {r : Registry} {s t : Text}

theorem slot_lt (h : s ∈ r.sources) : r.slot s < r.sources.length := by
  have hlt := List.idxOf_lt_length_of_mem h
  simp only [slot]
  omega

/-- The slot of a source that is not registered is past the end of the list. -/
theorem slot_of_notMem (h : s ∉ r.sources) : r.slot s = r.sources.length := by
  rw [slot, List.idxOf_eq_length h]

theorem slot_inj (h : s ∈ r.sources) (heq : r.slot s = r.slot t) : s = t := by
  simp only [slot, Int.natCast_inj] at heq
  exact (List.idxOf_inj h).mp heq

theorem sourceAt_slot (h : s ∈ r.sources) : r.sourceAt (r.slot s) = s := by
  have hget := List.getElem?_idxOf h
  simp only [sourceAt, slot, Int.toNat_natCast]
  rw [List.getD_eq_getElem?_getD, hget, Option.getD_some]

theorem slot?_eq (h : s ∈ r.sources) : r.slot? s = some (r.sources.idxOf s) :=
  idxOf?_of_mem h

theorem isSome_slot?_register (r : Registry) (s : Text) : ((r.register s).slot? s).isSome := by
  rw [slot?_eq (mem_sources_register.mpr (.inr rfl))]
  rfl

theorem slot?_eq_none_iff : r.slot? s = none ↔ s ∉ r.sources := List.idxOf?_eq_none_iff

/-- The slot of a source is its first position. -/
theorem slot?_eq_some_iff {n : Nat} :
    r.slot? s = some n ↔ r.sources[n]? = some s ∧ ∀ i < n, r.sources[i]? ≠ some s := by
  rw [slot?, List.idxOf?_eq_some_iff]
  constructor
  · rintro ⟨hn, hs, hfirst⟩
    refine ⟨List.getElem?_eq_some_iff.mpr ⟨hn, hs⟩, fun i hi heq => ?_⟩
    obtain ⟨_, hi'⟩ := List.getElem?_eq_some_iff.mp heq
    exact hfirst i hi hi'
  · rintro ⟨hs, hfirst⟩
    obtain ⟨hn, hs⟩ := List.getElem?_eq_some_iff.mp hs
    refine ⟨hn, hs, fun i hi hi' => hfirst i hi ?_⟩
    exact List.getElem?_eq_some_iff.mpr ⟨Nat.lt_trans hi hn, hi'⟩

theorem slot?_inj {n : Nat} (hs : r.slot? s = some n) (ht : r.slot? t = some n) : s = t :=
  Option.some.inj ((slot?_eq_some_iff.mp hs).1.symm.trans (slot?_eq_some_iff.mp ht).1)

theorem slot?_declare (r : Registry) (s t : Text) :
    (r.declare s).slot? t = (r.slot? t).or (if s = t then some r.sources.length else none) := by
  show (r.sources ++ [s]).findIdx? (· == t) = _
  rw [List.findIdx?_append]
  by_cases heq : s = t
  · simp [heq, slot?, List.idxOf?]
  · simp [heq, slot?, List.idxOf?]

/-- The slot of a source is before that of another one. -/
def Before (r : Registry) (s t : Text) : Prop :=
  ∃ i j, r.slot? s = some i ∧ r.slot? t = some j ∧ i < j

theorem Before.asymm (h : r.Before s t) : ¬r.Before t s := RankedMap.Before.asymm h

theorem Before.ne (h : r.Before s t) : s ≠ t := RankedMap.Before.ne h

/-! ### Growing registries -/

/-- A registry that has the sources of another one, and perhaps more behind them. -/
def Extends (later earlier : Registry) : Prop := earlier.sources <+: later.sources

theorem Extends.refl (r : Registry) : r.Extends r := List.prefix_refl _

theorem Extends.trans {r₁ r₂ r₃ : Registry} (h : r₃.Extends r₂) (h' : r₂.Extends r₁) :
    r₃.Extends r₁ :=
  List.IsPrefix.trans h' h

theorem extends_declare (r : Registry) (s : Text) : (r.declare s).Extends r :=
  List.prefix_append r.sources [s]

theorem extends_register (r : Registry) (s : Text) : (r.register s).Extends r := by
  by_cases hs : s ∈ r.sources
  · rw [register, if_pos hs]
    exact .refl r
  · rw [register, if_neg hs]
    exact extends_declare r s

/-- The slots of sources never change. -/
theorem Extends.slot_eq {r' : Registry} (h : r'.Extends r) (hs : s ∈ r.sources) :
    r'.slot s = r.slot s := by
  obtain ⟨more, hmore⟩ := h
  rw [slot, slot, ← hmore, List.idxOf_append, if_pos hs]

theorem Extends.slot?_eq {r' : Registry} (h : r'.Extends r) (hs : s ∈ r.sources) :
    r'.slot? s = r.slot? s := by
  have hslot := h.slot_eq hs
  simp only [slot, Int.natCast_inj] at hslot
  rw [Registry.slot?_eq hs, Registry.slot?_eq (h.subset hs), hslot]

/-! ### Registering many sources -/

/-- Registers sources one after the other. -/
def registerAll (r : Registry) (sources : List Text) : Registry := sources.foldl register r

/-- Registering sources that are there changes nothing. -/
theorem registerAll_of_mem {sources : List Text} (h : ∀ s ∈ sources, s ∈ r.sources) :
    r.registerAll sources = r := by
  induction sources with
  | nil => rfl
  | cons s rest ih =>
    have hs : r.register s = r := by rw [register, if_pos (h s (by simp))]
    show (r.register s).registerAll rest = r
    rw [hs]
    exact ih fun t ht => h t (List.mem_cons_of_mem s ht)

theorem mem_sources_registerAll {sources : List Text} :
    t ∈ (r.registerAll sources).sources ↔ t ∈ r.sources ∨ t ∈ sources := by
  induction sources generalizing r with
  | nil => simp [registerAll]
  | cons s rest ih =>
    show t ∈ ((r.register s).registerAll rest).sources ↔ _
    rw [ih, mem_sources_register, List.mem_cons, or_assoc]

theorem sources_registerAll (r : Registry) (sources : List Text) :
    (r.registerAll sources).sources = withNew r.sources sources := by
  induction sources generalizing r with
  | nil => exact (withNew_nil r.sources).symm
  | cons s rest ih =>
    show ((r.register s).registerAll rest).sources = _
    rw [ih]
    by_cases hs : s ∈ r.sources
    · rw [withNew_cons_of_mem hs, register, if_pos hs]
    · rw [withNew_cons_of_notMem hs, register, if_neg hs, declare]

end Registry

end SourceMaps
