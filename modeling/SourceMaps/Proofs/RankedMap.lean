import SourceMaps.Proofs.RankedMap.Actions
import SourceMaps.Proofs.RankedMap.InStep

/-!
# Ranked maps: keys and values in step

A ranked map keeps its keys and its values apart, and every operation changes the one and then the
other. As long as each key that is removed is the first of its rank, the two stay in step: the list
holds the keys that have a value, in the order of their ranks and then of their arrival, and the map
answers like a plain finite map. An operation that fails leaves the map as it was, except that an
update keeps what it has set before.

## Main definitions

* `RankedMap.Operation.Orderly`, `RankedMap.OrderlyRun`: operations that remove only keys that are
  the first of their rank.
* `RankedMap.Operation.Leaves`: what an operation that fails must leave.
* `RankedMap.run`, `RankedMap.Plain.run`: operations one after the other.

## Main statements

* `RankedMap.InStep.perform`: an orderly operation does the same to both maps, which stay in step.
* `RankedMap.InStep.leaves`: what is left after a failure.
* `RankedMap.inStep_run`: likewise for a whole run.
-/

namespace SourceMaps.RankedMap

variable {κ ν ρ α β : Type} [DecidableEq κ] [LinearOrder ρ] {rank : κ → Option ρ}
  {m : RankedMap κ ν} {p : Plain κ ν} {k : κ} {r : ρ}

/-! ### Steps -/

/-- A step of a ranked map agrees with one of a plain map: the two answer the same and stay in
step. -/
def Agrees (rank : κ → Option ρ) (x : Except (Missing κ) α × RankedMap κ ν)
    (y : Except (Missing κ) α × Plain κ ν) : Prop :=
  x.1 = y.1 ∧ InStep rank x.2 y.2

theorem Agrees.map {x : Except (Missing κ) α × RankedMap κ ν}
    {y : Except (Missing κ) α × Plain κ ν} (h : Agrees rank x y) (f : α → β) :
    Agrees rank (x.1.map f, x.2) (y.1.map f, y.2) :=
  ⟨congrArg (Except.map f) h.1, h.2⟩

/-- An operation that removes only a key that is, at that moment, the first listed of its rank.
Operations that do not name the key that they remove always remove the first of all. -/
def Operation.Orderly (rank : κ → Option ρ) (m : RankedMap κ ν) : Operation κ ν → Prop
  | .erase k | .pop k _ => k ∈ m.keys → m.keys.find? (rank · = rank k) = some k
  | _ => True

namespace InStep

theorem set (h : InStep rank m p) (k : κ) (v : ν) :
    Agrees rank (m.act (set rank k v)) (p.set rank k v) := by
  rw [act_set, Plain.set, h.contains_eq]
  by_cases hk : (p.value k).isSome
  · rw [if_pos hk, if_pos (.inl hk)]
    exact ⟨rfl, h.put_of_isSome hk v⟩
  · rw [if_neg hk]
    cases hr : rank k with
    | none =>
      rw [if_neg (by simp [hk])]
      exact ⟨rfl, h⟩
    | some r =>
      rw [if_pos (.inr rfl)]
      exact ⟨rfl, h.put_of_isNone (by simpa using hk) hr v⟩

theorem erase (h : InStep rank m p)
    (first : k ∈ m.keys → m.keys.find? (rank · = rank k) = some k) :
    Agrees rank (m.act (erase rank k)) (p.erase k) := by
  rw [act_erase, Plain.erase, h.contains_eq]
  by_cases hk : (p.value k).isSome
  · have hlisted : k ∈ m.keys := h.mem_keys_iff_value.mpr hk
    obtain ⟨r, hr⟩ := h.ranked k hlisted
    rw [if_pos hk, if_pos hk, hr]
    exact ⟨rfl, h.drop hr (first hlisted)⟩
  · rw [if_neg hk, if_neg hk]
    exact ⟨rfl, h⟩

theorem pop (h : InStep rank m p)
    (first : k ∈ m.keys → m.keys.find? (rank · = rank k) = some k) (default : Option ν) :
    Agrees rank (m.act (pop rank k default)) (p.pop k default) := by
  rw [act_pop, h.lookup_eq]
  unfold Plain.pop
  cases hk : p.value k with
  | some v =>
    have herase := h.erase first
    rw [Plain.erase, if_pos (by simp [hk])] at herase
    exact herase.map fun _ => v
  | none =>
    cases default
    · exact ⟨rfl, h⟩
    · exact ⟨rfl, h⟩

theorem popFirst (h : InStep rank m p) :
    Agrees rank (m.act (popFirst rank)) (p.popFirst rank) := by
  rw [act_popFirst, Plain.popFirst, h.first_eq]
  cases hkeys : m.keys with
  | nil => exact ⟨rfl, h⟩
  | cons k rest =>
    have first : m.keys.find? (rank · = rank k) = some k := by
      rw [hkeys, List.find?_cons_of_pos (by simp)]
    exact (h.pop (fun _ => first) none).map (k, ·)

theorem setDefault (h : InStep rank m p) (k : κ) (v : ν) :
    Agrees rank (m.act (setDefault rank k v)) (p.setDefault rank k v) := by
  rw [act_setDefault, Plain.setDefault, h.lookup_eq]
  cases p.value k with
  | some found => exact ⟨rfl, h⟩
  | none => exact (h.set k v).map fun _ => v

theorem update (h : InStep rank m p) (pairs : List (κ × ν)) :
    Agrees rank (m.act (update rank pairs)) (p.update rank pairs) := by
  induction pairs generalizing m p with
  | nil => exact ⟨rfl, h⟩
  | cons pair rest ih =>
    obtain ⟨k, v⟩ := pair
    rw [act_update_cons, Plain.update]
    obtain ⟨hanswer, hleft⟩ := h.set k v
    rcases hm : m.act (RankedMap.set rank k v) with ⟨result, m'⟩
    rcases hp : p.set rank k v with ⟨result', p'⟩
    rw [hm, hp] at hanswer hleft
    obtain rfl : result = result' := hanswer
    cases result with
    | ok _ => exact ih hleft
    | error e => exact ⟨rfl, hleft⟩

/-- A map without listed keys is empty. -/
theorem eq_empty (h : InStep rank m p) (hkeys : m.keys = []) : m = RankedMap.empty := by
  have hvalues : m.values = [] := by
    refine List.eq_nil_iff_forall_not_mem.mpr fun entry hentry => ?_
    have hlisted := (h.mem_keys_iff entry.1).mpr (List.mem_map_of_mem hentry)
    rw [hkeys] at hlisted
    cases hlisted
  obtain ⟨keys, values⟩ := m
  obtain rfl : keys = [] := hkeys
  obtain rfl : values = [] := hvalues
  rfl

/-- Removing the first key leaves the keys behind it. -/
theorem act_popFirst_eq {rest : List κ} (h : InStep rank m p) (hkeys : m.keys = k :: rest) :
    ∃ v, m.act (RankedMap.popFirst rank) = (.ok (k, v), ⟨rest, eraseValue m.values k⟩) := by
  have first : m.keys.find? (rank · = rank k) = some k := by
    rw [hkeys, List.find?_cons_of_pos (by simp)]
  have hlisted : k ∈ m.keys := by simp [hkeys]
  have hrest : m.keys.filter (· ≠ k) = rest := by
    have hnodup := h.nodup_keys
    rw [hkeys] at hnodup ⊢
    have hkept : ∀ j ∈ rest, j ≠ k := fun j hj heq =>
      (List.nodup_cons.mp hnodup).1 (heq ▸ hj)
    rw [List.filter_cons_of_neg (by simp), List.filter_eq_self.mpr (by simpa using hkept)]
  obtain ⟨r, hr⟩ := h.ranked k hlisted
  have hk : (p.value k).isSome := h.mem_keys_iff_value.mp hlisted
  obtain ⟨v, hv⟩ := Option.isSome_iff_exists.mp hk
  have herase : m.act (RankedMap.erase rank k) = (.ok (), ⟨rest, eraseValue m.values k⟩) := by
    rw [act_erase, h.contains_eq, if_pos hk, hr, ← hrest, ← h.unlistKey_eq_filter hr first]
  have hpop : m.act (RankedMap.pop rank k none) = (.ok v, ⟨rest, eraseValue m.values k⟩) := by
    rw [act_pop, h.lookup_eq, hv, herase]
    rfl
  refine ⟨v, ?_⟩
  rw [act_popFirst, hkeys]
  show ((m.act (RankedMap.pop rank k none)).1.map (k, ·),
    (m.act (RankedMap.pop rank k none)).2) = _
  rw [hpop]
  rfl

/-- Removing first keys as often as keys are listed leaves none. -/
theorem popMany (h : InStep rank m p) (n : Nat) (hsize : m.size = n) :
    (m.act (popMany rank n)).2 = RankedMap.empty := by
  induction n generalizing m p with
  | zero => exact h.eq_empty (List.eq_nil_of_length_eq_zero hsize)
  | succ n ih =>
    obtain ⟨k, rest, hkeys⟩ := List.exists_cons_of_length_eq_add_one hsize
    obtain ⟨v, hpop⟩ := h.act_popFirst_eq hkeys
    have hleft := h.popFirst.2
    rw [hpop] at hleft
    rw [RankedMap.popMany, act_bind, hpop]
    refine ih hleft ?_
    rw [size, hkeys] at hsize
    exact Nat.succ.inj hsize

theorem clear (h : InStep rank m p) :
    m.act (clear rank) = (.ok (), RankedMap.empty) := by
  rw [act_clear, h.popMany m.size rfl]

/-- An orderly operation does the same to both maps. -/
theorem perform (h : InStep rank m p) (op : Operation κ ν) (orderly : op.Orderly rank m) :
    Agrees rank (m.act (op.perform rank)) (p.perform rank op) := by
  cases op with
  | set k v =>
    rw [Operation.perform, act_return]
    exact (h.set k v).map fun _ => Reply.done
  | erase k =>
    rw [Operation.perform, act_return]
    exact (h.erase orderly).map fun _ => Reply.done
  | pop k default =>
    rw [Operation.perform, act_return]
    exact (h.pop orderly default).map Reply.value
  | popFirst =>
    rw [act_perform_popFirst]
    exact h.popFirst.map _
  | setDefault k v =>
    rw [Operation.perform, act_return]
    exact (h.setDefault k v).map Reply.value
  | update pairs =>
    rw [Operation.perform, act_return]
    exact (h.update pairs).map fun _ => Reply.done
  | clear =>
    rw [Operation.perform, act_return, h.clear]
    exact ⟨rfl, InStep.empty rank⟩

end InStep

/-! ### Failures -/

namespace InStep

/-- A key with a value has a rank, so erasing it does not fail halfway. -/
theorem keepsOnFailure_erase (h : InStep rank m p) (k : κ) :
    KeepsOnFailure m (m.act (RankedMap.erase rank k)) := by
  intro e failed
  rw [act_erase] at failed ⊢
  by_cases hk : m.contains k
  · obtain ⟨r, hr⟩ := h.ranked k (h.mem_keys_iff_value.mpr (h.contains_eq k ▸ hk))
    rw [if_pos hk, hr] at failed
    cases failed
  · rw [if_neg hk]

theorem keepsOnFailure_pop (h : InStep rank m p) (k : κ) (default : Option ν) :
    KeepsOnFailure m (m.act (RankedMap.pop rank k default)) := by
  rw [act_pop]
  cases m.values.lookup k with
  | some v => exact (h.keepsOnFailure_erase k).map fun _ => v
  | none =>
    intro e _
    cases default <;> rfl

theorem keepsOnFailure_popFirst (h : InStep rank m p) :
    KeepsOnFailure m (m.act (RankedMap.popFirst rank)) := by
  rw [act_popFirst]
  cases m.keys with
  | nil => exact fun _ _ => rfl
  | cons k rest => exact (h.keepsOnFailure_pop k none).map (k, ·)

end InStep

/-- What an operation that fails leaves: the map as it was, except that an update has set the pairs
before the one that it could not set. -/
def Operation.Leaves (rank : κ → Option ρ) (m : RankedMap κ ν)
    (x : Except (Missing κ) (Reply κ ν) × RankedMap κ ν) : Operation κ ν → Prop
  | .update pairs => ∀ e, x.1 = .error e → ∃ before k v after,
      pairs = before ++ (k, v) :: after ∧ e = .rank k ∧
        m.act (RankedMap.update rank before) = (.ok (), x.2)
  | _ => KeepsOnFailure m x

/-! ### Runs -/

section Runs

variable {σ ω : Type}

/-- What steps answer one after the other, whether they fail or not, and the last state. -/
def trace (step : σ → ω → β × σ) : σ → List ω → List β × σ
  | s, [] => ([], s)
  | s, o :: rest =>
    ((step s o).1 :: (trace step (step s o).2 rest).1, (trace step (step s o).2 rest).2)

end Runs

/-- Performs operations in order. -/
def run (rank : κ → Option ρ) :
    RankedMap κ ν → List (Operation κ ν) → List (Except (Missing κ) (Reply κ ν)) × RankedMap κ ν :=
  trace fun m op => m.act (op.perform rank)

/-- Performs operations in order. -/
def Plain.run (rank : κ → Option ρ) :
    Plain κ ν → List (Operation κ ν) → List (Except (Missing κ) (Reply κ ν)) × Plain κ ν :=
  trace (Plain.perform rank)

/-- A run of operations each of which is orderly when it comes. -/
def OrderlyRun (rank : κ → Option ρ) : RankedMap κ ν → List (Operation κ ν) → Prop
  | _, [] => True
  | m, op :: rest => op.Orderly rank m ∧ OrderlyRun rank (m.act (op.perform rank)).2 rest

instance (m : RankedMap κ ν) (op : Operation κ ν) : Decidable (op.Orderly rank m) :=
  match op with
  | .erase k | .pop k _ =>
    inferInstanceAs (Decidable (k ∈ m.keys → m.keys.find? (rank · = rank k) = some k))
  | .set _ _ | .popFirst | .setDefault _ _ | .update _ | .clear => .isTrue trivial

instance instDecidableOrderlyRun :
    (m : RankedMap κ ν) → (ops : List (Operation κ ν)) → Decidable (OrderlyRun rank m ops)
  | _, [] => .isTrue trivial
  | m, op :: rest =>
    have := instDecidableOrderlyRun (m.act (op.perform rank)).2 rest
    inferInstanceAs (Decidable (_ ∧ _))

theorem InStep.leaves (h : InStep rank m p) (op : Operation κ ν) :
    op.Leaves rank m (m.act (op.perform rank)) := by
  cases op with
  | set k v =>
    rw [Operation.perform, act_return]
    exact (keepsOnFailure_set k v).map fun _ => Reply.done
  | erase k =>
    rw [Operation.perform, act_return]
    exact (h.keepsOnFailure_erase k).map fun _ => Reply.done
  | pop k default =>
    rw [Operation.perform, act_return]
    exact (h.keepsOnFailure_pop k default).map Reply.value
  | popFirst =>
    rw [act_perform_popFirst]
    exact h.keepsOnFailure_popFirst.map _
  | setDefault k v =>
    rw [Operation.perform, act_return]
    exact (keepsOnFailure_setDefault k v).map Reply.value
  | update pairs =>
    intro e failed
    rw [Operation.perform, act_return] at failed ⊢
    rcases hact : m.act (RankedMap.update rank pairs) with ⟨result, left⟩
    rw [hact] at failed
    cases result with
    | ok _ => cases failed
    | error e' =>
      cases failed
      exact act_update_of_error rank hact
  | clear =>
    intro e failed
    rw [Operation.perform, act_return, h.clear] at failed
    cases failed

/-- If no two keys have the same rank, every key is the first of its rank. -/
theorem InStep.find?_of_injective (h : InStep rank m p)
    (injective : ∀ j k r, rank j = some r → rank k = some r → j = k) (hk : k ∈ m.keys) :
    m.keys.find? (rank · = rank k) = some k := by
  obtain ⟨r, hr⟩ := h.ranked k hk
  match hfound : m.keys.find? (rank · = rank k) with
  | some j =>
    have hj : rank j = rank k := by simpa using List.find?_some hfound
    rw [injective j k r (hj.trans hr) hr]
  | none =>
    have hne := List.find?_eq_none.mp hfound k hk
    simp at hne

/-- If no two keys have the same rank, the list follows the ranks strictly. -/
theorem InStep.pairwise_before (h : InStep rank m p)
    (injective : ∀ j k r, rank j = some r → rank k = some r → j = k) :
    m.keys.Pairwise (Before rank) := by
  refine (h.ordered.and h.nodup_keys).imp fun {j k} ⟨hprecedes, hne⟩ => ?_
  obtain ⟨r, s, hr, hs, hle⟩ := hprecedes.ranks
  refine ⟨r, s, hr, hs, lt_of_le_of_ne hle fun heq => ?_⟩
  exact hne (injective j k r hr (heq ▸ hs))

theorem orderly_of_injective (injective : ∀ j k r, rank j = some r → rank k = some r → j = k)
    (h : InStep rank m p) (op : Operation κ ν) : op.Orderly rank m := by
  cases op with
  | erase k => exact h.find?_of_injective injective
  | pop k default => exact h.find?_of_injective injective
  | set | popFirst | setDefault | update | clear => exact trivial

theorem InStep.run (h : InStep rank m p) (ops : List (Operation κ ν))
    (orderly : OrderlyRun rank m ops) :
    (RankedMap.run rank m ops).1 = (Plain.run rank p ops).1 ∧
      InStep rank (RankedMap.run rank m ops).2 (Plain.run rank p ops).2 := by
  induction ops generalizing m p with
  | nil => exact ⟨rfl, h⟩
  | cons op rest ih =>
    obtain ⟨horderly, hrest⟩ := orderly
    obtain ⟨hanswer, hleft⟩ := h.perform op horderly
    obtain ⟨hanswers, hend⟩ := ih hleft hrest
    exact ⟨congrArg₂ List.cons hanswer hanswers, hend⟩

theorem orderlyRun_of_injective (injective : ∀ j k r, rank j = some r → rank k = some r → j = k)
    (h : InStep rank m p) (ops : List (Operation κ ν)) : OrderlyRun rank m ops := by
  induction ops generalizing m p with
  | nil => trivial
  | cons op rest ih =>
    have horderly := orderly_of_injective injective h op
    exact ⟨horderly, ih (h.perform op horderly).2⟩

theorem inStep_ofList {items : List (κ × ν)} (built : ofList rank items = .ok m) :
    InStep rank m (Plain.ofList items) := by
  obtain ⟨hanswer, hleft⟩ := (InStep.empty rank).update items
  rw [ofList] at built
  rcases hact : RankedMap.empty.act (update rank items) with ⟨result, left⟩
  rw [hact] at built hanswer hleft
  cases result with
  | error e => cases built
  | ok _ =>
    cases built
    have hplain : Plain.empty.update rank items = (.ok (), (Plain.empty.update rank items).2) :=
      Prod.ext hanswer.symm rfl
    rw [← Plain.foldl_put_of_update hplain] at hleft
    exact hleft

/-- Whatever orderly operations are performed on a ranked map, it answers like a plain one and stays
in step with it, every failure leaves what it should, and clearing leaves an empty map. Runs are
orderly if no two keys have the same rank. -/
theorem inStep_run (rank : κ → Option ρ) {items : List (κ × ν)} {start : RankedMap κ ν}
    (built : ofList rank items = .ok start) :
    ((∀ j k r, rank j = some r → rank k = some r → j = k) →
      ∀ ops : List (Operation κ ν), OrderlyRun rank start ops) ∧
    ∀ ops : List (Operation κ ν), OrderlyRun rank start ops →
      let left := (RankedMap.run rank start ops).2
      let plain := Plain.run rank (Plain.ofList items) ops
      (RankedMap.run rank start ops).1 = plain.1 ∧ InStep rank left plain.2 ∧
        (∀ op : Operation κ ν, op.Leaves rank left (left.act (op.perform rank))) ∧
        left.act (clear rank) = (.ok (), RankedMap.empty) := by
  have h := inStep_ofList built
  refine ⟨fun injective ops => orderlyRun_of_injective injective h ops, fun ops orderly => ?_⟩
  obtain ⟨hanswers, hend⟩ := h.run ops orderly
  exact ⟨hanswers, hend, hend.leaves, hend.clear⟩

/-- Integers by their distance from zero; 9 has no rank. -/
def distance (n : Int) : Option Nat := if n = 9 then none else some n.natAbs

/-- Of the tied keys -1 and 1 the one that is listed first goes first. -/
theorem inStep_run_tied :
    let start : RankedMap Int String := ⟨[-1, 1, -2], [(-2, "a"), (-1, "b"), (1, "c")]⟩
    let ops : List (Operation Int String) :=
      [.erase (-1), .set (-1) "d", .pop 1 none, .erase 5, .update [(3, "e"), (9, "f"), (4, "g")],
        .popFirst]
    ofList distance [(-2, "a"), (-1, "b"), (1, "c")] = .ok start ∧
      OrderlyRun distance start ops ∧
      (RankedMap.run distance start ops).1 =
        [.ok .done, .ok .done, .ok (.value "c"), .error (.value 5), .error (.rank 9),
          .ok (.pair (-1) "d")] ∧
      ((RankedMap.run distance start ops).2.act (clear distance)).2 = empty := by
  intro start ops
  have built : ofList distance [(-2, "a"), (-1, "b"), (1, "c")] = .ok start := by decide
  have orderly : OrderlyRun distance start ops := by decide
  obtain ⟨hanswers, -, -, hclear⟩ := (inStep_run distance built).2 ops orderly
  exact ⟨built, orderly, hanswers.trans (by decide), by rw [hclear]⟩

end SourceMaps.RankedMap
