import SourceMaps.Proofs.RankedMap.Listing

/-!
# Ranked maps in step with plain maps

A ranked map is in step if its list of keys and its values agree with each other, the list follows
the ranks, and both agree with a plain finite map, on which no order is kept. Each of the two
changes that an operation makes keeps this together with the other one, provided that a key that is
removed is the first listed of its rank.

## Main definitions

* `RankedMap.Plain`: plain finite maps, and the operations on them.
* `RankedMap.InStep`: a ranked map that agrees with a plain one.

## Main statements

* `RankedMap.InStep.put_of_isSome`, `RankedMap.InStep.put_of_isNone`, `RankedMap.InStep.drop`: maps
  in step after a change.
* `RankedMap.InStep.first_eq`: the first key in the order of ranks and arrivals is listed first.
-/

namespace SourceMaps.RankedMap

variable {κ ν ρ α : Type}

/-! ### Plain maps -/

/-- A plain finite map: the values of keys, and the keys that have one in the order in which they
came. -/
structure Plain (κ ν : Type) where
  /-- The value of a key. -/
  value : κ → Option ν
  /-- The keys with a value. -/
  arrivals : List κ

namespace Plain

variable [DecidableEq κ] [LT ρ] [DecidableLT ρ]

/-- The map without keys. -/
def empty : Plain κ ν := ⟨fun _ => none, []⟩

/-- The map with a value for a key, which arrives if it had none. -/
def put (p : Plain κ ν) (k : κ) (v : ν) : Plain κ ν :=
  ⟨fun j => if j = k then some v else p.value j,
    if (p.value k).isSome then p.arrivals else p.arrivals ++ [k]⟩

/-- The map without a key. -/
def drop (p : Plain κ ν) (k : κ) : Plain κ ν :=
  ⟨fun j => if j = k then none else p.value j, p.arrivals.filter (· ≠ k)⟩

/-- Gives a key a value, if it has one already or has a rank. -/
def set (rank : κ → Option ρ) (p : Plain κ ν) (k : κ) (v : ν) :
    Except (Missing κ) Unit × Plain κ ν :=
  if (p.value k).isSome ∨ (rank k).isSome then (.ok (), p.put k v) else (.error (.rank k), p)

/-- Removes a key that has a value. -/
def erase (p : Plain κ ν) (k : κ) : Except (Missing κ) Unit × Plain κ ν :=
  if (p.value k).isSome then (.ok (), p.drop k) else (.error (.value k), p)

/-- Removes a key and answers its value, or the default for a key without a value. -/
def pop (p : Plain κ ν) (k : κ) (default : Option ν) : Except (Missing κ) ν × Plain κ ν :=
  match p.value k, default with
  | some v, _ => (.ok v, p.drop k)
  | none, some v => (.ok v, p)
  | none, none => (.error (.value k), p)

omit [LT ρ] [DecidableLT ρ] in
theorem pop_of_some {p : Plain κ ν} {k : κ} {v : ν} (h : p.value k = some v)
    (default : Option ν) : p.pop k default = (.ok v, p.drop k) := by
  unfold pop
  rw [h]

omit [LT ρ] [DecidableLT ρ] in
theorem pop_of_none {p : Plain κ ν} {k : κ} (h : p.value k = none) :
    p.pop k none = (.error (.value k), p) := by
  unfold pop
  rw [h]

/-- The key that came first among those of the least rank. -/
def first (rank : κ → Option ρ) (p : Plain κ ν) : Option κ :=
  p.arrivals.find? fun k =>
    p.arrivals.all fun j => !(rank j).any fun r => (rank k).any (r < ·)

/-- Removes the first key of the least rank and answers it with its value. -/
def popFirst (rank : κ → Option ρ) (p : Plain κ ν) : Except (Missing κ) (κ × ν) × Plain κ ν :=
  match p.first rank with
  | none => (.error .anyKey, p)
  | some k => ((p.pop k none).1.map (k, ·), (p.pop k none).2)

theorem popFirst_of_some {rank : κ → Option ρ} {p : Plain κ ν} {k : κ} {v : ν}
    (hfirst : p.first rank = some k) (hvalue : p.value k = some v) :
    p.popFirst rank = (.ok (k, v), p.drop k) := by
  unfold popFirst
  rw [hfirst]
  show ((p.pop k none).1.map (k, ·), (p.pop k none).2) = _
  rw [pop_of_some hvalue]
  rfl

theorem popFirst_of_none {rank : κ → Option ρ} {p : Plain κ ν} (h : p.first rank = none) :
    p.popFirst rank = (.error .anyKey, p) := by
  unfold popFirst
  rw [h]

/-- The value of a key, which is given `v` if it has none. -/
def setDefault (rank : κ → Option ρ) (p : Plain κ ν) (k : κ) (v : ν) :
    Except (Missing κ) ν × Plain κ ν :=
  match p.value k with
  | some found => (.ok found, p)
  | none => ((p.set rank k v).1.map fun _ => v, (p.set rank k v).2)

/-- Sets pairs in order, up to the first that fails. -/
def update (rank : κ → Option ρ) (p : Plain κ ν) :
    List (κ × ν) → Except (Missing κ) Unit × Plain κ ν
  | [] => (.ok (), p)
  | (k, v) :: rest =>
    match p.set rank k v with
    | (.ok _, p') => p'.update rank rest
    | (.error e, p') => (.error e, p')

/-- What an operation answers on a plain map, and the map that it leaves. -/
def perform (rank : κ → Option ρ) (p : Plain κ ν) :
    Operation κ ν → Except (Missing κ) (Reply κ ν) × Plain κ ν
  | .set k v => ((p.set rank k v).1.map fun _ => .done, (p.set rank k v).2)
  | .erase k => ((p.erase k).1.map fun _ => .done, (p.erase k).2)
  | .pop k default => ((p.pop k default).1.map .value, (p.pop k default).2)
  | .popFirst => ((p.popFirst rank).1.map fun (k, v) => .pair k v, (p.popFirst rank).2)
  | .setDefault k v => ((p.setDefault rank k v).1.map .value, (p.setDefault rank k v).2)
  | .update pairs => ((p.update rank pairs).1.map fun _ => .done, (p.update rank pairs).2)
  | .clear => (.ok .done, empty)

/-- The map of a list of pairs. -/
def ofList (pairs : List (κ × ν)) : Plain κ ν := pairs.foldl (fun p (k, v) => p.put k v) empty

omit [LT ρ] [DecidableLT ρ] in
theorem foldl_put_of_update {rank : κ → Option ρ} {p p' : Plain κ ν} {pairs : List (κ × ν)}
    (h : p.update rank pairs = (.ok (), p')) : pairs.foldl (fun p (k, v) => p.put k v) p = p' := by
  induction pairs generalizing p with
  | nil =>
    cases h
    rfl
  | cons pair rest ih =>
    obtain ⟨k, v⟩ := pair
    rw [update, set] at h
    by_cases hk : (p.value k).isSome ∨ (rank k).isSome
    · rw [if_pos hk] at h
      exact ih h
    · rw [if_neg hk] at h
      cases h

end Plain

/-! ### Maps in step -/

theorem notMem_of_nodup_middle {before after : List α} {a : α}
    (h : (before ++ a :: after).Nodup) : a ∉ before ∧ a ∉ after := by
  have hrest := (List.nodup_cons.mp (List.perm_middle.nodup_iff.mp h)).1
  exact ⟨fun hmem => hrest (List.mem_append_left _ hmem),
    fun hmem => hrest (List.mem_append_right _ hmem)⟩

/-- What stands before an item does not stand after it as well. -/
theorem not_sublist_of_nodup_middle {before after : List α} {a b : α}
    (h : (before ++ a :: after).Nodup) (hb : b ∈ before) :
    ¬[a, b].Sublist (before ++ a :: after) := by
  intro hsub
  obtain ⟨hbefore, -⟩ := notMem_of_nodup_middle h
  obtain ⟨left, right, heq, hleft, hright⟩ := List.sublist_append_iff.mp hsub
  match left, heq with
  | [], heq =>
    rw [List.nil_append] at heq
    rw [← heq, List.cons_sublist_cons, List.singleton_sublist] at hright
    have hdisjoint := (List.nodup_append.mp h).2.2 b hb b (List.mem_cons_of_mem a hright)
    exact hdisjoint rfl
  | _ :: _, heq =>
    obtain ⟨rfl, -⟩ := List.cons.inj heq
    exact hbefore (hleft.subset List.mem_cons_self)

/-- A ranked map whose list of keys and values agree with each other and with a plain map. -/
structure InStep [DecidableEq κ] [LinearOrder ρ] (rank : κ → Option ρ) (m : RankedMap κ ν)
    (p : Plain κ ν) : Prop where
  /-- No key is listed twice. -/
  nodup_keys : m.keys.Nodup
  /-- The listed keys are those with a value. -/
  mem_keys_iff : ∀ k, k ∈ m.keys ↔ k ∈ m.values.map (·.1)
  /-- No key has two values. -/
  nodup_values : (m.values.map (·.1)).Nodup
  /-- The listed keys have ranks. -/
  ranked : ∀ k ∈ m.keys, ∃ r, rank k = some r
  /-- The keys are listed by rank, and those of one rank by arrival. -/
  ordered : m.keys.Pairwise (Precedes rank p.arrivals)
  /-- The values are those of the plain map. -/
  lookup_eq : ∀ k, m.values.lookup k = p.value k
  /-- The keys came in the same order to both. -/
  arrivals_eq : m.values.map (·.1) = p.arrivals

variable [DecidableEq κ] [LinearOrder ρ] {rank : κ → Option ρ} {m : RankedMap κ ν}
  {p : Plain κ ν} {k : κ} {r : ρ}

omit [DecidableEq κ] in
/-- A key that came earlier than one that it is listed behind has a greater rank. -/
theorem Precedes.lt_of_before {before after : List κ} {j : κ}
    (h : Precedes rank (before ++ k :: after) k j) (hnodup : (before ++ k :: after).Nodup)
    (hj : j ∈ before) : ∃ r s, rank k = some r ∧ rank j = some s ∧ r < s := by
  obtain ⟨r, s, hr, hs, hlt | ⟨-, hsub⟩⟩ := h
  · exact ⟨r, s, hr, hs, hlt⟩
  · exact absurd hsub (not_sublist_of_nodup_middle hnodup hj)

namespace InStep

theorem empty (rank : κ → Option ρ) : InStep rank (empty : RankedMap κ ν) Plain.empty where
  nodup_keys := List.nodup_nil
  mem_keys_iff _ := Iff.rfl
  nodup_values := List.nodup_nil
  ranked := nofun
  ordered := List.Pairwise.nil
  lookup_eq _ := rfl
  arrivals_eq := rfl

theorem contains_eq (h : InStep rank m p) (k : κ) : m.contains k = (p.value k).isSome := by
  rw [contains, h.lookup_eq]

theorem mem_keys_iff_value (h : InStep rank m p) : k ∈ m.keys ↔ (p.value k).isSome := by
  rw [h.mem_keys_iff, ← lookup_isSome_iff, h.lookup_eq]

theorem mem_arrivals_iff (h : InStep rank m p) : k ∈ p.arrivals ↔ (p.value k).isSome := by
  rw [← h.arrivals_eq, ← h.mem_keys_iff, h.mem_keys_iff_value]

/-- Only the ranks of listed keys matter. -/
theorem of_rank_eq {rank' : κ → Option ρ} (h : InStep rank m p)
    (hrank : ∀ k ∈ m.keys, rank' k = rank k) : InStep rank' m p where
  nodup_keys := h.nodup_keys
  mem_keys_iff := h.mem_keys_iff
  nodup_values := h.nodup_values
  ranked k hk := by
    rw [hrank k hk]
    exact h.ranked k hk
  ordered := by
    refine h.ordered.imp_of_mem fun {j k} hj hk hjk => ?_
    obtain ⟨r, s, hr, hs, hlt⟩ := hjk
    exact ⟨r, s, (hrank j hj).trans hr, (hrank k hk).trans hs, hlt⟩
  lookup_eq := h.lookup_eq
  arrivals_eq := h.arrivals_eq

/-- Setting the value of a key that has one leaves the list. -/
theorem put_of_isSome (h : InStep rank m p) (hk : (p.value k).isSome) (v : ν) :
    InStep rank ⟨m.keys, setValue m.values k v⟩ (p.put k v) := by
  have hkeys : (setValue m.values k v).map (·.1) = m.values.map (·.1) := by
    rw [keys_setValue, h.lookup_eq, if_pos hk]
  have harrivals : (p.put k v).arrivals = p.arrivals := if_pos hk
  refine ⟨h.nodup_keys, ?_, ?_, h.ranked, ?_, fun j => ?_, ?_⟩
  · simpa only [hkeys] using h.mem_keys_iff
  · simpa only [hkeys] using h.nodup_values
  · simpa only [harrivals] using h.ordered
  · rw [lookup_setValue, h.lookup_eq]
    rfl
  · rw [hkeys, h.arrivals_eq, harrivals]

/-- A key without a value is listed behind those of its rank, and comes last. -/
theorem put_of_isNone (h : InStep rank m p) (hk : p.value k = none) (hr : rank k = some r)
    (v : ν) : InStep rank ⟨listKey rank r k m.keys, setValue m.values k v⟩ (p.put k v) := by
  have hkeys : (setValue m.values k v).map (·.1) = m.values.map (·.1) ++ [k] := by
    rw [keys_setValue, h.lookup_eq, hk]
    rfl
  have harrivals : (p.put k v).arrivals = p.arrivals ++ [k] := by
    simp [Plain.put, hk]
  have hnew : k ∉ m.keys := by simp [h.mem_keys_iff_value, hk]
  have hnew' : k ∉ m.values.map (·.1) := fun hmem => hnew ((h.mem_keys_iff k).mpr hmem)
  have hlisted : ∀ j, j ∈ listKey rank r k m.keys ↔ j = k ∨ j ∈ m.keys := by
    intro j
    rw [(listKey_perm rank r k m.keys).mem_iff, List.mem_cons]
  refine ⟨?_, fun j => ?_, ?_, fun j hj => ?_, ?_, fun j => ?_, ?_⟩
  · exact (listKey_perm rank r k m.keys).nodup_iff.mpr (List.nodup_cons.mpr ⟨hnew, h.nodup_keys⟩)
  · rw [hlisted, hkeys, List.mem_append, List.mem_singleton, h.mem_keys_iff, or_comm]
  · rw [hkeys]
    exact List.perm_append_comm.nodup_iff.mpr (List.nodup_cons.mpr ⟨hnew', h.nodup_values⟩)
  · rcases (hlisted j).mp hj with rfl | hj
    · exact ⟨r, hr⟩
    · exact h.ranked j hj
  · rw [harrivals]
    refine pairwise_listKey h.ordered h.ranked (fun j hj => ?_) hr
    rw [← h.arrivals_eq]
    exact (h.mem_keys_iff j).mp hj
  · rw [lookup_setValue, h.lookup_eq]
    rfl
  · rw [hkeys, h.arrivals_eq, harrivals]

/-- Taking a key that is the first of its rank off the list takes just that key. -/
theorem unlistKey_eq_filter (h : InStep rank m p) (hr : rank k = some r)
    (first : m.keys.find? (rank · = rank k) = some k) :
    unlistKey rank r m.keys = m.keys.filter (· ≠ k) := by
  obtain ⟨before, after, hlist, hunlist⟩ := unlistKey_eq h.ordered hr first
  have habsent := notMem_of_nodup_middle (hlist ▸ h.nodup_keys)
  have hkept : ∀ j ∈ before ++ after, j ≠ k := by
    rintro j hj rfl
    exact (List.mem_append.mp hj).elim habsent.1 habsent.2
  rw [hunlist, hlist, List.filter_append, List.filter_cons_of_neg (by simp),
    ← List.filter_append, List.filter_eq_self.mpr (by simpa using hkept)]

/-- A key that is the first of its rank goes from the list and from the values. -/
theorem drop (h : InStep rank m p) (hr : rank k = some r)
    (first : m.keys.find? (rank · = rank k) = some k) :
    InStep rank ⟨unlistKey rank r m.keys, eraseValue m.values k⟩ (p.drop k) := by
  have hkeys := h.unlistKey_eq_filter hr first
  have hvalues := keys_eraseValue m.values k
  refine ⟨?_, fun j => ?_, ?_, fun j hj => ?_, ?_, fun j => ?_, ?_⟩
  · rw [hkeys]
    exact h.nodup_keys.filter _
  · rw [hkeys, hvalues, List.mem_filter, List.mem_filter, h.mem_keys_iff]
  · rw [hvalues]
    exact h.nodup_values.filter _
  · rw [hkeys] at hj
    exact h.ranked j (List.mem_filter.mp hj).1
  · rw [hkeys]
    refine (h.ordered.filter _).imp_of_mem fun {a b} ha hb hab => ?_
    exact hab.filter (List.mem_filter.mp ha).2 (List.mem_filter.mp hb).2
  · rw [lookup_eraseValue, h.lookup_eq]
    rfl
  · rw [hvalues, h.arrivals_eq]
    rfl

/-- The first listed key is the one that came first among those of the least rank. -/
theorem first_eq (h : InStep rank m p) : p.first rank = m.keys.head? := by
  have hlisted : ∀ j, j ∈ p.arrivals ↔ j ∈ m.keys := fun j => by
    rw [h.mem_arrivals_iff, h.mem_keys_iff_value]
  match hkeys : m.keys with
  | [] =>
    have hnone : p.arrivals = [] := by
      refine List.eq_nil_iff_forall_not_mem.mpr fun j hj => ?_
      rw [hlisted, hkeys] at hj
      cases hj
    rw [Plain.first, hnone]
    rfl
  | k :: rest =>
    have hordered := h.ordered
    rw [hkeys] at hordered
    obtain ⟨hbehind, -⟩ := List.pairwise_cons.mp hordered
    have hk : k ∈ p.arrivals := (hlisted k).mpr (by simp [hkeys])
    obtain ⟨before, after, hsplit⟩ := List.append_of_mem hk
    refine List.find?_eq_some_iff_append.mpr ⟨?_, before, after, hsplit, fun j hj => ?_⟩
    · refine List.all_eq_true.mpr fun j hj => ?_
      rw [hlisted, hkeys] at hj
      rcases List.mem_cons.mp hj with rfl | hj
      · cases rank j <;> simp
      · obtain ⟨r, s, hr, hs, hle⟩ := (hbehind j hj).ranks
        simpa [hr, hs] using hle
    · have hnodup : (before ++ k :: after).Nodup := hsplit ▸ h.arrivals_eq ▸ h.nodup_values
      have hj' : j ∈ p.arrivals := by simp [hsplit, hj]
      have hrest : j ∈ rest := by
        have hmem := (hlisted j).mp hj'
        rw [hkeys] at hmem
        rcases List.mem_cons.mp hmem with rfl | hmem
        · exact absurd hj (notMem_of_nodup_middle hnodup).1
        · exact hmem
      obtain ⟨r, s, hr, hs, hlt⟩ := Precedes.lt_of_before (hsplit ▸ hbehind j hrest) hnodup hj
      have hfails : ¬∀ i ∈ p.arrivals, (!(rank i).any fun r => (rank j).any (r < ·)) = true :=
        fun hall => by simpa [hr, hs, hlt] using hall k hk
      simpa using hfails

end InStep

end SourceMaps.RankedMap
