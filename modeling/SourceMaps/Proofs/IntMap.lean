import Mathlib.Data.List.Perm.Basic
import SourceMaps.IntMap

/-!
# Maps with integer keys: look-ups determine maps

A map is fixed by its look-ups, since its entries are listed in the one order that their keys allow.

## Main statements

* `IntMap.ext_find?`: maps with the same look-ups are equal.
* `IntMap.find?_filterMap`: what filtering does to a look-up.
* `IntMap.keys_eq_of_mem_iff`: a list of keys is fixed by its members.
* `IntMap.flatMap_filterMap`: a walk through a filtered map.
* `IntMap.filter_flatMap_entries`: of a walk through a map, a part that only one key contributes to.
-/

namespace SourceMaps.IntMap

variable {α ν μ : Type}

@[simp]
theorem find?_empty (k : Int) : (∅ : IntMap ν).find? k = none := rfl

/-- A look-up finds exactly the values that stand beside the key. -/
theorem find?_eq_some_iff {m : IntMap ν} {k : Int} {v : ν} :
    m.find? k = some v ↔ (k, v) ∈ m.entries := by
  obtain ⟨entries, ascending⟩ := m
  simp only [find?]
  induction entries with
  | nil => simp
  | cons e rest ih =>
    obtain ⟨j, w⟩ := e
    obtain ⟨hj, hrest⟩ := List.pairwise_cons.mp ascending
    rw [lookup_cons_eq, List.mem_cons, Prod.mk.injEq]
    by_cases hk : k = j
    · subst hk
      have habsent : (k, v) ∉ rest := fun hmem => Int.lt_irrefl k (hj (k, v) hmem)
      simp [habsent, eq_comm]
    · simp [hk, ih hrest]

theorem mem_keys_iff {m : IntMap ν} {k : Int} : k ∈ m.keys ↔ ∃ v, m.find? k = some v := by
  simp [keys, find?_eq_some_iff]

theorem find?_eq_none_iff {m : IntMap ν} {k : Int} : m.find? k = none ↔ k ∉ m.keys := by
  rw [mem_keys_iff, ← Option.isSome_iff_exists, Option.not_isSome_iff_eq_none]

theorem pairwise_keys (m : IntMap ν) : m.keys.Pairwise (· < ·) :=
  List.pairwise_map.mpr m.ascending

theorem isEmpty_iff {m : IntMap ν} : m.isEmpty = true ↔ m = ∅ := by
  obtain ⟨entries, ascending⟩ := m
  constructor
  · intro h
    obtain rfl : entries = [] := by simpa [isEmpty] using h
    rfl
  · intro h
    have hentries : entries = [] := congrArg IntMap.entries h
    simp [isEmpty, hentries]

theorem entries_of_erase? {m n : IntMap ν} {k : Int} (h : m.erase? k = some n) :
    n.entries = m.entries.filter (·.1 ≠ k) := by
  unfold erase? at h
  by_cases hk : k ∈ m.keys
  · rw [if_pos hk] at h
    cases h
    rfl
  · rw [if_neg hk] at h
    cases h

theorem isSome_erase?_iff {m : IntMap ν} {k : Int} : (m.erase? k).isSome ↔ k ∈ m.keys := by
  unfold erase?
  by_cases hk : k ∈ m.keys
  · rw [if_pos hk]
    exact iff_of_true rfl hk
  · rw [if_neg hk]
    exact iff_of_false Bool.false_ne_true hk

private theorem eq_of_mem_iff (f : α → Int) {l₁ l₂ : List α}
    (h₁ : l₁.Pairwise fun a b => f a < f b) (h₂ : l₂.Pairwise fun a b => f a < f b)
    (h : ∀ a, a ∈ l₁ ↔ a ∈ l₂) : l₁ = l₂ := by
  have hnodup {l : List α} (hl : l.Pairwise fun a b => f a < f b) : l.Nodup :=
    hl.imp fun hab heq => by simp [heq] at hab
  have hperm : l₁.Perm l₂ := (List.perm_ext_iff_of_nodup (hnodup h₁) (hnodup h₂)).mpr h
  exact hperm.eq_of_pairwise (fun a b _ _ hab hba => by omega) h₁ h₂

theorem ext_find? {m n : IntMap ν} (h : ∀ k, m.find? k = n.find? k) : m = n := by
  have hentries : m.entries = n.entries := by
    refine eq_of_mem_iff (·.1) m.ascending n.ascending ?_
    rintro ⟨k, v⟩
    rw [← find?_eq_some_iff, h, find?_eq_some_iff]
  cases m
  cases n
  simpa using hentries

theorem keys_eq_of_mem_iff {m : IntMap ν} {n : IntMap μ} (h : ∀ k, k ∈ m.keys ↔ k ∈ n.keys) :
    m.keys = n.keys :=
  eq_of_mem_iff id m.pairwise_keys n.pairwise_keys h

/-- Filtering filters every look-up. -/
theorem find?_filterMap (f : Int → ν → Option μ) (m : IntMap ν) (k : Int) :
    (m.filterMap f).find? k = (m.find? k).bind (f k) := by
  refine Option.ext fun w => ?_
  rw [find?_eq_some_iff, Option.bind_eq_some_iff]
  simp only [filterMap, List.mem_filterMap, Option.map_eq_some_iff]
  constructor
  · rintro ⟨⟨j, v⟩, hv, x, hx, heq⟩
    obtain ⟨rfl, rfl⟩ := Prod.mk.inj heq
    exact ⟨v, find?_eq_some_iff.mpr hv, hx⟩
  · rintro ⟨v, hv, hw⟩
    exact ⟨(k, v), find?_eq_some_iff.mp hv, w, hw, rfl⟩

/-- A walk through a filtered map is a walk through the map that leaves out what is filtered. -/
theorem flatMap_filterMap (f : Int → ν → Option μ) (m : IntMap ν) (g : Int × μ → List α) :
    (m.filterMap f).entries.flatMap g =
      m.entries.flatMap fun e => ((f e.1 e.2).map fun w => g (e.1, w)).getD [] := by
  simp only [filterMap]
  induction m.entries with
  | nil => rfl
  | cons e rest ih =>
    rw [List.filterMap_cons, List.flatMap_cons, ← ih]
    cases f e.1 e.2 <;> rfl

/-- If only the entry of one key contributes to a part of a walk through the entries, then the part
is what that entry gives. -/
theorem filter_flatMap_entries (m : IntMap ν) (k : Int) (g : Int × ν → List α) (p : α → Bool)
    (h : ∀ e ∈ m.entries, e.1 ≠ k → (g e).filter p = []) :
    (m.entries.flatMap g).filter p =
      ((m.find? k).map fun v => (g (k, v)).filter p).getD [] := by
  obtain ⟨entries, ascending⟩ := m
  simp only [find?] at h ⊢
  induction entries with
  | nil => rfl
  | cons e rest ih =>
    obtain ⟨j, v⟩ := e
    obtain ⟨hj, hrest⟩ := List.pairwise_cons.mp ascending
    have ih := ih hrest fun e he => h e (List.mem_cons_of_mem _ he)
    rw [List.flatMap_cons, List.filter_append, lookup_cons_eq]
    by_cases hk : k = j
    · subst hk
      -- The keys ascend, so the first one does not come again.
      have hothers : List.lookup k rest = none := lookup_eq_none_of_lt hj
      rw [hothers] at ih
      simp [ih]
    · rw [h (j, v) (by simp) (Ne.symm hk), List.nil_append, ih, if_neg hk]

end SourceMaps.IntMap
