import Mathlib.Data.List.TakeWhile
import Mathlib.Order.Lattice
import SourceMaps.RankedMap

/-!
# Ranked maps: listing keys and setting values

What the parts of an operation do. The list of keys follows the ranks, and keys of one rank follow
the order in which they came; listing a key keeps this, and so does taking the first key of a rank
off the list, which is then the only one that goes.

## Main definitions

* `RankedMap.Precedes`: the order of the listed keys.
* `RankedMap.Before`: the order of keys that do not have the same rank.

## Main statements

* `RankedMap.lookup_setValue`, `RankedMap.lookup_eraseValue`: values after a change.
* `RankedMap.pairwise_listKey`: listing a new key keeps the order.
* `RankedMap.unlistKey_eq`: what goes when a key is taken off the list.
-/

namespace SourceMaps.RankedMap

variable {κ ν ρ : Type}

/-! ### Values -/

section Values

variable [DecidableEq κ]

theorem lookup_isSome_iff {values : List (κ × ν)} {k : κ} :
    (values.lookup k).isSome ↔ k ∈ values.map (·.1) := by
  induction values with
  | nil => simp
  | cons entry rest ih =>
    obtain ⟨j, w⟩ := entry
    by_cases hj : k = j
    · simp [hj]
    · have hne : (k == j) = false := beq_eq_false_iff_ne.mpr hj
      simp [List.lookup_cons, hne, hj, ih]

theorem lookup_setValue (values : List (κ × ν)) (k j : κ) (v : ν) :
    (setValue values k v).lookup j = if j = k then some v else values.lookup j := by
  induction values with
  | nil =>
    by_cases hj : j = k
    · simp [setValue, hj]
    · have hne : (j == k) = false := beq_eq_false_iff_ne.mpr hj
      simp [setValue, hj, hne, List.lookup_cons]
  | cons entry rest ih =>
    obtain ⟨i, w⟩ := entry
    rw [setValue]
    by_cases hi : i = k
    · subst hi
      by_cases hj : j = i
      · simp [hj]
      · have hne : (j == i) = false := beq_eq_false_iff_ne.mpr hj
        simp [hj, hne, List.lookup_cons]
    · rw [if_neg hi, List.lookup_cons, List.lookup_cons, ih]
      by_cases hj : j = i
      · have hk : ¬j = k := fun heq => hi (hj ▸ heq)
        simp [hj, hi]
      · have hne : (j == i) = false := beq_eq_false_iff_ne.mpr hj
        simp [hne]

/-- A key without a value comes behind those that have one. -/
theorem keys_setValue (values : List (κ × ν)) (k : κ) (v : ν) :
    (setValue values k v).map (·.1) =
      if (values.lookup k).isSome then values.map (·.1) else values.map (·.1) ++ [k] := by
  induction values with
  | nil => rfl
  | cons entry rest ih =>
    obtain ⟨i, w⟩ := entry
    rw [setValue]
    by_cases hi : i = k
    · simp [hi]
    · have hne : (k == i) = false := beq_eq_false_iff_ne.mpr (Ne.symm hi)
      rw [if_neg hi, List.map_cons, ih, List.lookup_cons, hne]
      split <;> rfl

theorem lookup_eraseValue (values : List (κ × ν)) (k j : κ) :
    (eraseValue values k).lookup j = if j = k then none else values.lookup j := by
  induction values with
  | nil => simp [eraseValue]
  | cons entry rest ih =>
    obtain ⟨i, w⟩ := entry
    unfold eraseValue at ih ⊢
    by_cases hi : i = k
    · rw [List.filter_cons_of_neg (by simp [hi]), ih]
      by_cases hj : j = k
      · rw [if_pos hj, if_pos hj]
      · have hne : (j == i) = false := beq_eq_false_iff_ne.mpr fun heq => hj (heq.trans hi)
        rw [if_neg hj, if_neg hj, List.lookup_cons, hne]
    · rw [List.filter_cons_of_pos (by simp [hi]), List.lookup_cons, ih, List.lookup_cons]
      by_cases hj : j = i
      · simp [hj, hi]
      · have hne : (j == i) = false := beq_eq_false_iff_ne.mpr hj
        simp [hne]

theorem keys_eraseValue (values : List (κ × ν)) (k : κ) :
    (eraseValue values k).map (·.1) = (values.map (·.1)).filter (· ≠ k) := by
  rw [eraseValue, List.filter_map]
  rfl

end Values

/-! ### The order of keys -/

section Order

variable [LinearOrder ρ] {rank : κ → Option ρ} {arrivals keys : List κ} {j k : κ} {r : ρ}

/-- A key is listed before another if it has the lower rank, or it has the same rank and came
earlier. -/
def Precedes (rank : κ → Option ρ) (arrivals : List κ) (j k : κ) : Prop :=
  ∃ r s, rank j = some r ∧ rank k = some s ∧ (r < s ∨ r = s ∧ [j, k].Sublist arrivals)

/-- The rank of a key is below that of another one. -/
def Before (rank : κ → Option ρ) (j k : κ) : Prop :=
  ∃ r s, rank j = some r ∧ rank k = some s ∧ r < s

theorem Before.asymm (h : Before rank j k) : ¬Before rank k j := by
  obtain ⟨r, s, hr, hs, hlt⟩ := h
  rintro ⟨s', r', hs', hr', hlt'⟩
  obtain rfl := Option.some.inj (hr.symm.trans hr')
  obtain rfl := Option.some.inj (hs.symm.trans hs')
  exact lt_asymm hlt hlt'

theorem Before.ne (h : Before rank j k) : j ≠ k := by
  rintro rfl
  exact h.asymm h

theorem Precedes.append (h : Precedes rank arrivals j k) (more : List κ) :
    Precedes rank (arrivals ++ more) j k := by
  obtain ⟨r, s, hr, hs, h⟩ := h
  refine ⟨r, s, hr, hs, h.imp_right fun ⟨heq, hsub⟩ => ⟨heq, ?_⟩⟩
  exact hsub.trans (List.sublist_append_left arrivals more)

theorem Precedes.filter {p : κ → Bool} (h : Precedes rank arrivals j k) (hj : p j) (hk : p k) :
    Precedes rank (arrivals.filter p) j k := by
  obtain ⟨r, s, hr, hs, h⟩ := h
  refine ⟨r, s, hr, hs, h.imp_right fun ⟨heq, hsub⟩ => ⟨heq, ?_⟩⟩
  have hkept := hsub.filter p
  simpa [hj, hk] using hkept

theorem Precedes.ranks (h : Precedes rank arrivals j k) :
    ∃ r s, rank j = some r ∧ rank k = some s ∧ r ≤ s := by
  obtain ⟨r, s, hr, hs, h⟩ := h
  exact ⟨r, s, hr, hs, h.elim le_of_lt fun ⟨heq, _⟩ => le_of_eq heq⟩

/-- If a key is not above a rank, neither are the keys before it. -/
theorem Precedes.not_any_gt (h : Precedes rank arrivals j k) (hk : (!(rank k).any (r < ·)) = true) :
    (!(rank j).any (r < ·)) = true := by
  obtain ⟨s, t, hs, ht, hle⟩ := h.ranks
  have htr : t ≤ r := by simpa [ht] using hk
  simpa [hs] using le_trans hle htr

/-- If a key is below a rank, so are the keys before it. -/
theorem Precedes.any_lt (h : Precedes rank arrivals j k) (hk : (rank k).any (· < r) = true) :
    (rank j).any (· < r) = true := by
  obtain ⟨s, t, hs, ht, hle⟩ := h.ranks
  have htr : t < r := by simpa [ht] using hk
  simpa [hs] using lt_of_le_of_lt hle htr

/-- If no later item passes a test that an earlier one fails, then none passes it behind the first
that fails. -/
theorem eq_false_of_mem_dropWhile {α : Type} {p : α → Bool} {items : List α}
    (h : items.Pairwise fun a b => p b = true → p a = true) :
    ∀ a ∈ items.dropWhile p, p a = false := by
  induction items with
  | nil => exact nofun
  | cons first rest ih =>
    obtain ⟨hfirst, hrest⟩ := List.pairwise_cons.mp h
    by_cases hpass : p first = true
    · rw [List.dropWhile_cons_of_pos hpass]
      exact ih hrest
    · rw [List.dropWhile_cons_of_neg hpass]
      intro a ha
      rcases List.mem_cons.mp ha with rfl | ha
      · exact Bool.eq_false_iff.mpr hpass
      · exact Bool.eq_false_iff.mpr fun hlater => hpass (hfirst a ha hlater)

/-- A key that comes last is listed behind those of its rank. -/
theorem pairwise_listKey (h : keys.Pairwise (Precedes rank arrivals))
    (ranked : ∀ j ∈ keys, ∃ s, rank j = some s) (arrived : ∀ j ∈ keys, j ∈ arrivals)
    (hk : rank k = some r) :
    (listKey rank r k keys).Pairwise (Precedes rank (arrivals ++ [k])) := by
  let upTo (j : κ) : Bool := !(rank j).any (r < ·)
  have hsplit : keys.takeWhile upTo ++ keys.dropWhile upTo = keys :=
    List.takeWhile_append_dropWhile
  have hearlier : ∀ j ∈ keys.takeWhile upTo, Precedes rank (arrivals ++ [k]) j k := by
    intro j hj
    have hmem : j ∈ keys := (List.takeWhile_prefix upTo).subset hj
    have hupTo : upTo j = true := List.mem_takeWhile_imp hj
    obtain ⟨s, hs⟩ := ranked j hmem
    have hle : s ≤ r := by simpa [upTo, hs] using hupTo
    refine ⟨s, r, hs, hk, (lt_or_eq_of_le hle).imp_right fun heq => ⟨heq, ?_⟩⟩
    exact (List.singleton_sublist.mpr (arrived j hmem)).append (List.Sublist.refl [k])
  have hlater : ∀ j ∈ keys.dropWhile upTo, Precedes rank (arrivals ++ [k]) k j := by
    intro j hj
    have hmem : j ∈ keys := (List.dropWhile_suffix upTo).subset hj
    have hmono : keys.Pairwise fun a b => upTo b = true → upTo a = true :=
      h.imp Precedes.not_any_gt
    have hupTo : upTo j = false := eq_false_of_mem_dropWhile hmono j hj
    obtain ⟨s, hs⟩ := ranked j hmem
    exact ⟨r, s, hk, hs, .inl (by simpa [upTo, hs] using hupTo)⟩
  have hgrown := h.imp fun {a b} hab => hab.append [k]
  rw [← hsplit] at hgrown
  obtain ⟨hbefore, hafter, hacross⟩ := List.pairwise_append.mp hgrown
  refine List.pairwise_append.mpr ⟨hbefore, List.pairwise_cons.mpr ⟨hlater, hafter⟩, ?_⟩
  intro a ha b hb
  rcases List.mem_cons.mp hb with rfl | hb
  · exact hearlier a ha
  · exact hacross a ha b hb

theorem listKey_perm (rank : κ → Option ρ) (r : ρ) (k : κ) (keys : List κ) :
    (listKey rank r k keys).Perm (k :: keys) := by
  refine List.perm_middle.trans (List.Perm.cons k ?_)
  rw [List.takeWhile_append_dropWhile]

/-- Taking a key off the list takes that key, and no other, if it is the first of its rank. -/
theorem unlistKey_eq (h : keys.Pairwise (Precedes rank arrivals)) (hk : rank k = some r)
    (first : keys.find? (rank · = rank k) = some k) :
    ∃ before after, keys = before ++ k :: after ∧ unlistKey rank r keys = before ++ after := by
  let below (j : κ) : Bool := (rank j).any (· < r)
  have hsplit : keys.takeWhile below ++ keys.dropWhile below = keys :=
    List.takeWhile_append_dropWhile
  have hbelow : ∀ j ∈ keys.takeWhile below, ¬rank j = rank k := by
    intro j hj heq
    have hj : below j = true := List.mem_takeWhile_imp hj
    simp only [below, heq, hk, Option.any_some, decide_eq_true_eq] at hj
    exact lt_irrefl r hj
  rw [← hsplit, List.find?_append, List.find?_eq_none.mpr (by simpa using hbelow),
    Option.none_or] at first
  match hdrop : keys.dropWhile below with
  | [] =>
    rw [hdrop] at first
    cases first
  | top :: after =>
    have hrest : (top :: after).Pairwise (Precedes rank arrivals) :=
      hdrop ▸ h.sublist (List.dropWhile_sublist below)
    -- `top` is not below the rank of `k`, and `k` does not come before it, so the two are tied.
    have htop : rank top = rank k := by
      have hmem : k ∈ top :: after := hdrop ▸ List.mem_of_find?_eq_some first
      rcases List.mem_cons.mp hmem with rfl | hmem
      · rfl
      · obtain ⟨s, t, hs, ht, hle⟩ := ((List.pairwise_cons.mp hrest).1 k hmem).ranks
        rw [Option.some.inj (ht.symm.trans hk)] at hle
        have hmono : keys.Pairwise fun a b => below b = true → below a = true :=
          h.imp Precedes.any_lt
        have hnot : below top = false := eq_false_of_mem_dropWhile hmono top (by simp [hdrop])
        have hge : r ≤ s := by simpa [below, hs] using hnot
        rw [hs, hk, le_antisymm hle hge]
    rw [hdrop, List.find?_cons_of_pos (by simpa using htop)] at first
    obtain rfl := Option.some.inj first
    refine ⟨keys.takeWhile below, after, by rw [← hdrop, hsplit], ?_⟩
    show keys.takeWhile below ++ (keys.dropWhile below).tail = _
    rw [hdrop, List.tail_cons]

end Order

end SourceMaps.RankedMap
