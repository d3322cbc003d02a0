import Mathlib.Order.Lattice

/-!
# Stable sorting by a key

A stable sort puts items in the order of their keys and leaves the items of one key as they were.
These two properties determine it: an ascending list is fixed by what it holds under each key. Every
statement about the order of mappings goes through this characterisation.

## Main definitions

* `sortOn`: the stable sort of a list by a key.

## Main statements

* `eq_of_filter_key_eq`: ascending lists that hold the same under each key are equal.
* `eq_sortOn`: what is ascending and holds the same under each key is the stable sort.
* `filter_sortOn`, `map_sortOn`: sorting commutes with taking a part and with a change of items.
-/

namespace SourceMaps

variable {α β κ : Type} [LinearOrder κ] {key : α → κ}

/-- The stable sort of a list by a key. -/
def sortOn (key : α → κ) (items : List α) : List α :=
  items.mergeSort fun a b => key a ≤ key b

/-- A list whose keys never decrease. -/
def Ascending (key : α → κ) (items : List α) : Prop :=
  items.Pairwise fun a b => key a ≤ key b

instance (key : α → κ) (items : List α) : Decidable (Ascending key items) :=
  inferInstanceAs (Decidable (items.Pairwise _))

theorem Ascending.head_le {a b : α} {items : List α} (h : Ascending key (a :: items))
    (hb : b ∈ a :: items) : key a ≤ key b := by
  rcases List.mem_cons.mp hb with rfl | hb
  · exact le_refl _
  · exact (List.pairwise_cons.mp h).1 b hb

theorem ascending_of_length_le_one {items : List α} (h : items.length ≤ 1) :
    Ascending key items := by
  match items, h with
  | [], _ => exact List.Pairwise.nil
  | [a], _ => exact List.pairwise_singleton _ a

/-- Two ascending lists that hold the same items in the same order under each key are equal. -/
theorem eq_of_filter_key_eq {l₁ l₂ : List α} (h₁ : Ascending key l₁) (h₂ : Ascending key l₂)
    (h : ∀ a, a ∈ l₁ ∨ a ∈ l₂ →
      l₁.filter (key · = key a) = l₂.filter (key · = key a)) : l₁ = l₂ := by
  induction l₁ generalizing l₂ with
  | nil =>
    cases l₂ with
    | nil => rfl
    | cons b l₂ => simpa using h b (by simp)
  | cons a l₁ ih =>
    cases l₂ with
    | nil => simpa using h a (by simp)
    | cons b l₂ =>
      have ha : a ∈ b :: l₂ := by
        have hmem : a ∈ (a :: l₁).filter (key · = key a) := by simp
        rw [h a (by simp)] at hmem
        exact (List.mem_filter.mp hmem).1
      have hb : b ∈ a :: l₁ := by
        have hmem : b ∈ (b :: l₂).filter (key · = key b) := by simp
        rw [← h b (by simp)] at hmem
        exact (List.mem_filter.mp hmem).1
      have hkey : key b = key a := le_antisymm (h₂.head_le ha) (h₁.head_le hb)
      -- Both heads have the least key, so they lead the two lists under that key.
      have hheads := h a (by simp)
      rw [List.filter_cons_of_pos (by simp), List.filter_cons_of_pos (by simp [hkey])] at hheads
      obtain ⟨rfl, -⟩ := List.cons.inj hheads
      congr 1
      refine ih (List.Pairwise.of_cons h₁) (List.Pairwise.of_cons h₂) fun c hc => ?_
      have hc' := h c (hc.imp (List.mem_cons_of_mem a) (List.mem_cons_of_mem a))
      by_cases hac : key a = key c
      · rw [List.filter_cons_of_pos (by simp [hac]), List.filter_cons_of_pos (by simp [hac])] at hc'
        exact (List.cons.inj hc').2
      · rwa [List.filter_cons_of_neg (by simp [hac]),
          List.filter_cons_of_neg (by simp [hac])] at hc'

private theorem keyLE_trans (key : α → κ) (a b c : α) (hab : decide (key a ≤ key b) = true)
    (hbc : decide (key b ≤ key c) = true) : decide (key a ≤ key c) = true := by
  simp only [decide_eq_true_eq] at hab hbc ⊢
  exact le_trans hab hbc

private theorem keyLE_total (key : α → κ) (a b : α) :
    (decide (key a ≤ key b) || decide (key b ≤ key a)) = true := by
  simpa using le_total (key a) (key b)

/-- A stable sort is ascending. -/
theorem ascending_sortOn (key : α → κ) (items : List α) : Ascending key (sortOn key items) := by
  have h := List.pairwise_mergeSort (keyLE_trans key) (keyLE_total key) items
  exact h.imp fun hab => by simpa using hab

theorem sortOn_perm (key : α → κ) (items : List α) : (sortOn key items).Perm items :=
  List.mergeSort_perm items _

@[simp]
theorem mem_sortOn {a : α} {items : List α} : a ∈ sortOn key items ↔ a ∈ items :=
  (sortOn_perm key items).mem_iff

theorem sortOn_eq_nil_iff {items : List α} : sortOn key items = [] ↔ items = [] := by
  rw [← List.length_eq_zero_iff, (sortOn_perm key items).length_eq, List.length_eq_zero_iff]

theorem sortOn_eq_self {items : List α} (h : Ascending key items) : sortOn key items = items :=
  List.mergeSort_of_pairwise (h.imp fun hab => by simpa using hab)

/-- A stable sort leaves the items of one key in their order. -/
theorem filter_key_sortOn (key : α → κ) (k : κ) (items : List α) :
    (sortOn key items).filter (key · = k) = items.filter (key · = k) := by
  have htied : (items.filter (key · = k)).Pairwise
      fun a b => decide (key a ≤ key b) = true := by
    refine List.pairwise_of_forall_mem_list fun a ha b hb => ?_
    have hka : key a = k := by simpa using (List.mem_filter.mp ha).2
    have hkb : key b = k := by simpa using (List.mem_filter.mp hb).2
    simp [hka, hkb]
  have hsub : (items.filter (key · = k)).Sublist (sortOn key items) :=
    List.sublist_mergeSort (keyLE_trans key) (keyLE_total key) htied List.filter_sublist
  have hsub' := hsub.filter (key · = k)
  rw [List.filter_filter, List.filter_congr (fun a _ => Bool.and_self _)] at hsub'
  exact (hsub'.eq_of_length (((sortOn_perm key items).filter _).length_eq).symm).symm

/-- An ascending list that holds what another holds under each key is the stable sort of it. -/
theorem eq_sortOn {items sorted : List α} (h : Ascending key sorted)
    (hsame : ∀ a, a ∈ sorted ∨ a ∈ items →
      sorted.filter (key · = key a) = items.filter (key · = key a)) :
    sorted = sortOn key items := by
  refine eq_of_filter_key_eq h (ascending_sortOn key items) fun a ha => ?_
  rw [filter_key_sortOn]
  exact hsame a (ha.imp id mem_sortOn.mp)

theorem sortOn_eq_self_iff {items : List α} : sortOn key items = items ↔ Ascending key items :=
  ⟨fun h => h ▸ ascending_sortOn key items, sortOn_eq_self⟩

/-- A part of a stable sort is the stable sort of that part. -/
theorem filter_sortOn (key : α → κ) (p : α → Bool) (items : List α) :
    (sortOn key items).filter p = sortOn key (items.filter p) := by
  refine eq_sortOn (List.Pairwise.filter p (ascending_sortOn key items)) fun a _ => ?_
  have hswap (l : List α) : (l.filter p).filter (key · = key a) =
      (l.filter (key · = key a)).filter p := by
    simp only [List.filter_filter, Bool.and_comm]
  rw [hswap, filter_key_sortOn, hswap]

/-- Sorting commutes with a change of the items that keeps the order of their keys. -/
theorem map_sortOn {f : α → β} {key' : β → κ} (h : ∀ a, key' (f a) = key a) (items : List α) :
    (sortOn key items).map f = sortOn key' (items.map f) := by
  refine List.map_mergeSort fun a _ b _ => ?_
  rw [h, h]

/-- If each item gives only what satisfies a predicate or only what does not, then what satisfies it
is given by a part of the items. -/
theorem filter_flatMap_of_forall {items : List α} {g : α → List β} {p : β → Bool} {q : α → Bool}
    (h : ∀ a ∈ items, ∀ b ∈ g a, p b = q a) :
    (items.flatMap g).filter p = (items.filter q).flatMap g := by
  induction items with
  | nil => rfl
  | cons a rest ih =>
    rw [List.flatMap_cons, List.filter_append, ih fun b hb => h b (List.mem_cons_of_mem a hb)]
    by_cases hq : q a = true
    · have hall : (g a).filter p = g a :=
        List.filter_eq_self.mpr fun b hb => (h a (by simp) b hb).trans hq
      rw [List.filter_cons_of_pos hq, List.flatMap_cons, hall]
    · have hnone : (g a).filter p = [] :=
        List.filter_eq_nil_iff.mpr fun b hb hp => hq ((h a (by simp) b hb).symm.trans hp)
      rw [List.filter_cons_of_neg hq, hnone, List.nil_append]

end SourceMaps
