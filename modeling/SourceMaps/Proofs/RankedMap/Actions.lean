import SourceMaps.RankedMap

/-!
# Ranked maps: what operations answer and leave

Operations in closed form: what each answers, and the map that it leaves, in terms of the values and
the list of keys that it found.

## Main definitions

* `RankedMap.KeepsOnFailure`: a step that leaves the map as it was if it fails.

## Main statements

* `RankedMap.act_bind`, `RankedMap.act_tryCatch`: what actions in sequence do.
* `RankedMap.act_set`, `RankedMap.act_erase`, `RankedMap.act_pop`, `RankedMap.act_popFirst`,
  `RankedMap.act_setDefault`, `RankedMap.act_update_cons`, `RankedMap.act_clear`: operations.
* `RankedMap.act_update_of_error`: an update that fails has set the pairs before the failing one.
-/

namespace SourceMaps.RankedMap

variable {κ ν ρ α β : Type}

/-! ### Actions in sequence -/

theorem act_bind (m : RankedMap κ ν) (action : Action κ ν α) (next : α → Action κ ν β) :
    m.act (action >>= next) =
      match m.act action with
      | (.ok a, m') => m'.act (next a)
      | (.error e, m') => (.error e, m') := by
  show (ExceptT.bindCont next (m.act action).1 : StateM (RankedMap κ ν) _) (m.act action).2 = _
  rcases m.act action with ⟨result, m'⟩
  cases result <;> rfl

theorem act_getThe (m : RankedMap κ ν) (next : RankedMap κ ν → Action κ ν α) :
    m.act (getThe (RankedMap κ ν) >>= next) = m.act (next m) := rfl

theorem act_return (m : RankedMap κ ν) (action : Action κ ν α) (f : α → β) :
    m.act (do let a ← action; return f a) = ((m.act action).1.map f, (m.act action).2) := by
  rw [act_bind]
  rcases m.act action with ⟨result, m'⟩
  cases result <;> rfl

theorem act_tryCatch (m : RankedMap κ ν) (action : Action κ ν α)
    (handle : Missing κ → Action κ ν α) :
    m.act (tryCatch action handle) =
      match m.act action with
      | (.ok a, m') => (.ok a, m')
      | (.error e, m') => m'.act (handle e) := by
  rcases hact : m.act action with ⟨result, m'⟩
  have hrun : StateT.run action m = (result, m') := hact
  simp only [act, tryCatch, tryCatchThe, MonadExceptOf.tryCatch, ExceptT.tryCatch, ExceptT.run_mk,
    StateT.run_bind, hrun]
  cases result <;> rfl

/-! ### Operations -/

section Operations

variable [DecidableEq κ] [LT ρ] [DecidableLT ρ] (rank : κ → Option ρ)

theorem act_set (m : RankedMap κ ν) (k : κ) (v : ν) :
    m.act (set rank k v) =
      if m.contains k then (.ok (), ⟨m.keys, setValue m.values k v⟩)
      else
        match rank k with
        | none => (.error (.rank k), m)
        | some r => (.ok (), ⟨listKey rank r k m.keys, setValue m.values k v⟩) := by
  rw [set, act_getThe]
  by_cases hk : m.contains k
  · rw [if_pos hk, if_pos hk]
    rfl
  · rw [if_neg hk, if_neg hk]
    cases rank k <;> rfl

theorem act_erase (m : RankedMap κ ν) (k : κ) :
    m.act (erase rank k) =
      if m.contains k then
        match rank k with
        | none => (.error (.rank k), ⟨m.keys, eraseValue m.values k⟩)
        | some r => (.ok (), ⟨unlistKey rank r m.keys, eraseValue m.values k⟩)
      else (.error (.value k), m) := by
  rw [erase, act_getThe]
  by_cases hk : m.contains k
  · rw [if_pos hk, if_pos hk]
    cases rank k <;> rfl
  · rw [if_neg hk, if_neg hk]
    rfl

theorem act_pop (m : RankedMap κ ν) (k : κ) (default : Option ν) :
    m.act (pop rank k default) =
      match m.values.lookup k, default with
      | some v, _ => ((m.act (erase rank k)).1.map fun _ => v, (m.act (erase rank k)).2)
      | none, some v => (.ok v, m)
      | none, none => (.error (.value k), m) := by
  rw [pop, act_getThe, get]
  cases m.values.lookup k with
  | some v => exact act_return m (erase rank k) fun _ => v
  | none => cases default <;> rfl

theorem act_popFirst (m : RankedMap κ ν) :
    m.act (popFirst rank) =
      match m.keys with
      | [] => (.error .anyKey, m)
      | k :: _ => ((m.act (pop rank k none)).1.map (k, ·), (m.act (pop rank k none)).2) := by
  rw [popFirst, act_getThe]
  cases m.keys with
  | nil => rfl
  | cons k rest => exact act_return m (pop rank k none) fun v => (k, v)

theorem act_perform_popFirst (m : RankedMap κ ν) :
    m.act (Operation.popFirst.perform rank) =
      ((m.act (popFirst rank)).1.map fun answer => .pair answer.1 answer.2,
        (m.act (popFirst rank)).2) :=
  act_return m (popFirst rank) fun answer => Reply.pair answer.1 answer.2

theorem act_setDefault (m : RankedMap κ ν) (k : κ) (v : ν) :
    m.act (setDefault rank k v) =
      match m.values.lookup k with
      | some found => (.ok found, m)
      | none => ((m.act (set rank k v)).1.map fun _ => v, (m.act (set rank k v)).2) := by
  rw [setDefault, act_getThe, get]
  cases m.values.lookup k with
  | some found => rfl
  | none => exact act_return m (set rank k v) fun _ => v

theorem act_update_cons (m : RankedMap κ ν) (k : κ) (v : ν) (rest : List (κ × ν)) :
    m.act (update rank ((k, v) :: rest)) =
      match m.act (set rank k v) with
      | (.ok _, m') => m'.act (update rank rest)
      | (.error e, m') => (.error e, m') := by
  rw [update, act_bind]
  rcases m.act (set rank k v) with ⟨result, m'⟩
  cases result <;> rfl

theorem act_clear (m : RankedMap κ ν) :
    m.act (clear rank) = (.ok (), (m.act (popMany rank m.size)).2) := by
  rw [clear, act_getThe, act_tryCatch]
  rcases m.act (popMany rank m.size) with ⟨result, m'⟩
  cases result <;> rfl

/-- A failed update has set the pairs before the one whose key has no rank, and nothing else. -/
theorem act_update_of_error {m m' : RankedMap κ ν} {pairs : List (κ × ν)} {e : Missing κ}
    (h : m.act (update rank pairs) = (.error e, m')) :
    ∃ before k v after, pairs = before ++ (k, v) :: after ∧ e = .rank k ∧
      m.act (update rank before) = (.ok (), m') := by
  induction pairs generalizing m with
  | nil => cases h
  | cons pair rest ih =>
    obtain ⟨k, v⟩ := pair
    rw [act_update_cons] at h
    match hset : m.act (set rank k v) with
    | (.ok (), m₁) =>
      rw [hset] at h
      obtain ⟨before, j, w, after, rfl, rfl, hbefore⟩ := ih h
      refine ⟨(k, v) :: before, j, w, after, rfl, rfl, ?_⟩
      rw [act_update_cons, hset]
      exact hbefore
    | (.error e₁, m₁) =>
      rw [hset] at h
      cases h
      rw [act_set] at hset
      refine ⟨[], k, v, rest, rfl, ?_⟩
      by_cases hk : m.contains k
      · rw [if_pos hk] at hset
        cases hset
      · rw [if_neg hk] at hset
        cases hr : rank k with
        | some r =>
          rw [hr] at hset
          cases hset
        | none =>
          rw [hr] at hset
          cases hset
          exact ⟨rfl, rfl⟩

end Operations

/-! ### Failures -/

/-- A step that fails leaves the map as it was. -/
def KeepsOnFailure (m : RankedMap κ ν) (x : Except (Missing κ) α × RankedMap κ ν) : Prop :=
  ∀ e, x.1 = .error e → x.2 = m

theorem KeepsOnFailure.map {m : RankedMap κ ν} {x : Except (Missing κ) α × RankedMap κ ν}
    (h : KeepsOnFailure m x) (f : α → β) : KeepsOnFailure m (x.1.map f, x.2) := by
  obtain ⟨result, left⟩ := x
  intro e failed
  cases result with
  | ok a => cases failed
  | error e' => exact h e' rfl

section Failures

variable [DecidableEq κ] [LT ρ] [DecidableLT ρ] {rank : κ → Option ρ} {m : RankedMap κ ν}

theorem keepsOnFailure_set (k : κ) (v : ν) : KeepsOnFailure m (m.act (set rank k v)) := by
  intro e failed
  rw [act_set] at failed ⊢
  by_cases hk : m.contains k
  · rw [if_pos hk] at failed
    cases failed
  · rw [if_neg hk] at failed ⊢
    cases hr : rank k with
    | none => rfl
    | some r =>
      rw [hr] at failed
      cases failed

theorem keepsOnFailure_setDefault (k : κ) (v : ν) :
    KeepsOnFailure m (m.act (setDefault rank k v)) := by
  rw [act_setDefault]
  cases m.values.lookup k with
  | some found => exact nofun
  | none => exact (keepsOnFailure_set k v).map fun _ => v

end Failures

end SourceMaps.RankedMap
