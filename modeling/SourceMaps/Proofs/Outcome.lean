/-!
# Outcomes: steps that can fail

A chain of steps succeeds if each of its steps does, and fails with the fault of the first that does
not. These lemmas take a chain apart without opening its steps.

## Main definitions

* `FailsOnly`: computations all of whose faults have a property.

## Main statements

* `bind_eq_ok_iff`, `bind_eq_error_iff`: a step and what follows.
* `map_eq_ok_iff`, `map_eq_error_iff`: a step and a change of its result.
* `FailsOnly.bind`, `FailsOnly.map`: likewise for the faults of a chain.
-/

namespace SourceMaps

variable {ε α β : Type} {x : Except ε α} {f : α → Except ε β}

@[simp]
theorem ok_bind (a : α) (f : α → Except ε β) : (Except.ok a >>= f) = f a := rfl

@[simp]
theorem error_bind (e : ε) (f : α → Except ε β) : (Except.error e >>= f) = .error e := rfl

@[simp]
theorem map_ok (g : α → β) (a : α) : (g <$> (.ok a : Except ε α)) = .ok (g a) := rfl

@[simp]
theorem map_error (g : α → β) (e : ε) : (g <$> (.error e : Except ε α)) = .error e := rfl

/-- A step and what follows succeed if both do. -/
theorem bind_eq_ok_iff {b : β} : (x >>= f) = .ok b ↔ ∃ a, x = .ok a ∧ f a = .ok b := by
  cases x with
  | ok a => simp
  | error e => simp

theorem bind_eq_error_iff {e : ε} :
    (x >>= f) = .error e ↔ x = .error e ∨ ∃ a, x = .ok a ∧ f a = .error e := by
  cases x with
  | ok a => simp
  | error e => simp

theorem map_eq_ok_iff {g : α → β} {b : β} : g <$> x = .ok b ↔ ∃ a, x = .ok a ∧ g a = b := by
  cases x with
  | ok a => simp
  | error e => simp

theorem map_eq_error_iff {g : α → β} {e : ε} : g <$> x = .error e ↔ x = .error e := by
  cases x with
  | ok a => simp
  | error e => simp

/-! ### Faults -/

/-- All faults that can end the computation have a property. -/
def FailsOnly (P : ε → Prop) (x : Except ε α) : Prop := ∀ e, x = .error e → P e

namespace FailsOnly

variable {P : ε → Prop}

theorem ok (a : α) : FailsOnly P (.ok a) := nofun

theorem error {e : ε} (h : P e) : FailsOnly P (.error e : Except ε α) := by
  intro _ herror
  cases herror
  exact h

theorem bind (hx : FailsOnly P x) (hf : ∀ a, x = .ok a → FailsOnly P (f a)) :
    FailsOnly P (x >>= f) := by
  intro e herror
  rcases bind_eq_error_iff.mp herror with herror | ⟨a, ha, herror⟩
  · exact hx e herror
  · exact hf a ha e herror

theorem map (hx : FailsOnly P x) (g : α → β) : FailsOnly P (g <$> x) := by
  intro e herror
  exact hx e (map_eq_error_iff.mp herror)

end FailsOnly

end SourceMaps
