import SourceMaps.Proofs.Json.Numbers
import SourceMaps.Proofs.Outcome

/-!
# JSON objects: what is read as a field

A value that was read is a text, a list, a word, a number, or the object of the members that were
read. Every integer among the fields of such an object was read as a number, so it has few digits.

## Main statements

* `Json.readValue_cases`: the kinds of values that are read.
* `Json.fewDigits_of_parse`: an integer in a field has few digits.
-/

namespace SourceMaps.Json

variable {fuel : Nat} {text rest : Text} {value : Json}

theorem mem_words_of_readWord? (h : readWord? text = some (value, rest)) :
    value ∈ words.map (·.2) := by
  obtain ⟨⟨word, found⟩, hmem, hfound⟩ := List.exists_of_findSome?_eq_some h
  simp only [Option.ite_none_right_eq_some, Option.some.injEq, Prod.mk.injEq] at hfound
  exact hfound.2.1 ▸ List.mem_map_of_mem hmem

/-- The kinds of values that are read. -/
theorem readValue_cases (h : readValue fuel text = .ok (value, rest)) :
    (∃ content, value = .text content) ∨ (∃ items, value = .list items) ∨
      value ∈ words.map (·.2) ∨ readNumber text = .ok (value, rest) ∨ value = .object [] ∨
      ∃ fuel' input pairs, readMembers fuel' input = .ok (pairs, rest) ∧ value = ofPairs pairs := by
  cases fuel with
  | zero => cases h
  | succ fuel =>
    cases text with
    | nil => cases h
    | cons c tail =>
      rw [readValue.eq_def] at h
      simp only at h
      split at h
      · obtain ⟨⟨content, after⟩, -, h⟩ := bind_eq_ok_iff.mp h
        cases h
        exact .inl ⟨content, rfl⟩
      · split at h
        · split at h
          · split at h
            · cases h
              simp
            · obtain ⟨⟨pairs, after⟩, hpairs, h⟩ := bind_eq_ok_iff.mp h
              cases h
              exact .inr (.inr (.inr (.inr (.inr ⟨_, _, pairs, hpairs, rfl⟩))))
          · cases h
        · split at h
          · split at h
            · split at h
              · cases h
                exact .inr (.inl ⟨[], rfl⟩)
              · obtain ⟨⟨items, after⟩, -, h⟩ := bind_eq_ok_iff.mp h
                cases h
                exact .inr (.inl ⟨items, rfl⟩)
            · cases h
          · split at h
            · next found hword =>
              cases h
              exact .inr (.inr (.inl (mem_words_of_readWord? hword)))
            · exact .inr (.inr (.inr (.inl h)))

theorem number_of_readNumber (h : readNumber text = .ok (value, rest)) :
    (∃ i, value = .int i) ∨ ∃ x, value = .double x := by
  unfold readNumber at h
  simp only at h
  split at h
  · cases h
  · split at h
    · split at h
      · cases h
      · cases h
        exact .inl ⟨_, rfl⟩
    · cases h
      exact .inr ⟨_, rfl⟩

theorem fewDigits_of_readValue {i : Int} (h : readValue fuel text = .ok (.int i, rest)) :
    FewDigits i := by
  rcases readValue_cases h with ⟨_, h⟩ | ⟨_, h⟩ | h | h | h | ⟨_, _, pairs, _, h⟩
  · cases h
  · cases h
  · simp [words] at h
  · exact fewDigits_of_readNumber h
  · cases h
  · cases h

/-- The members that are read have the values that are read. -/
theorem mem_of_readMembers {fields : List (Text × Json)}
    (h : readMembers fuel text = .ok (fields, rest)) :
    ∀ field ∈ fields, ∃ fuel' input after, readValue fuel' input = .ok (field.2, after) := by
  induction fuel generalizing text fields with
  | zero => cases h
  | succ fuel ih =>
    cases text with
    | nil => cases h
    | cons quote tail =>
      rw [readMembers.eq_def] at h
      simp only at h
      split at h
      · cases h
      obtain ⟨⟨name, afterName⟩, -, h⟩ := bind_eq_ok_iff.mp h
      simp only at h
      split at h
      · cases h
      split at h
      · cases h
      obtain ⟨⟨value, afterValue⟩, hvalue, h⟩ := bind_eq_ok_iff.mp h
      have hfirst : ∃ fuel' input after, readValue fuel' input = .ok (value, after) :=
        ⟨_, _, _, hvalue⟩
      simp only at h
      split at h
      · split at h
        · cases h
          exact List.forall_mem_singleton.mpr hfirst
        · split at h
          · obtain ⟨⟨others, after⟩, hothers, h⟩ := bind_eq_ok_iff.mp h
            cases h
            exact List.forall_mem_cons.mpr ⟨hfirst, ih hothers⟩
          · cases h
      · cases h

/-! ### Objects -/

theorem mem_of_mem_setField {fields : List (Text × Json)} {name : Text}
    {field : Text × Json} (h : field ∈ setField fields name value) :
    field ∈ fields ∨ field = (name, value) := by
  induction fields with
  | nil => exact .inr (List.mem_singleton.mp h)
  | cons first fields ih =>
    obtain ⟨n, v⟩ := first
    rw [setField] at h
    split at h
    · next hname =>
      rcases List.mem_cons.mp h with rfl | h
      · exact .inr (hname ▸ rfl)
      · exact .inl (List.mem_cons_of_mem _ h)
    · rcases List.mem_cons.mp h with rfl | h
      · exact .inl List.mem_cons_self
      · exact (ih h).imp_left (List.mem_cons_of_mem _)

/-- The fields of an object are among the pairs that it was made of. -/
theorem exists_object_of_pairs (pairs : List (Text × Json)) :
    ∃ fields, ofPairs pairs = .object fields ∧ ∀ field ∈ fields, field ∈ pairs := by
  have hfold (before : List (Text × Json)) : ∀ field ∈
      pairs.foldl (fun fields pair => setField fields pair.1 pair.2) before,
      field ∈ before ∨ field ∈ pairs := by
    induction pairs generalizing before with
    | nil => exact fun field hfield => .inl hfield
    | cons pair pairs ih =>
      intro field hfield
      rcases ih _ field hfield with hfield | hfield
      · rcases mem_of_mem_setField hfield with hfield | rfl
        · exact .inl hfield
        · exact .inr List.mem_cons_self
      · exact .inr (List.mem_cons_of_mem _ hfield)
  exact ⟨_, rfl, fun field hfield => (hfold [] field hfield).resolve_left nofun⟩

theorem mem_of_lookup {fields : List (Text × Json)} {name : Text}
    (h : fields.lookup name = some value) : (name, value) ∈ fields := by
  obtain ⟨before, after, rfl, -⟩ := List.lookup_eq_some_iff.mp h
  simp

/-- An integer in a field of what was parsed has few digits. -/
theorem fewDigits_of_parse {name : Text} {i : Int} (h : parse text = .ok value)
    (hfield : value.field? name = some (.int i)) : FewDigits i := by
  obtain ⟨⟨found, rest⟩, hread, h⟩ := bind_eq_ok_iff.mp h
  have hvalue : found = value := by
    simp only at h
    split at h
    · cases h
      rfl
    · cases h
  subst hvalue
  rcases readValue_cases hread with ⟨_, rfl⟩ | ⟨_, rfl⟩ | h | h | rfl | ⟨_, _, pairs, hpairs, rfl⟩
  · cases hfield
  · cases hfield
  · have hnone : ∀ word ∈ words.map (·.2), word.field? name = none := by simp [words, field?]
    rw [hnone _ h] at hfield
    cases hfield
  · rcases number_of_readNumber h with ⟨_, rfl⟩ | ⟨_, rfl⟩
    · cases hfield
    · cases hfield
  · cases hfield
  · obtain ⟨fields, hobject, hmem⟩ := exists_object_of_pairs pairs
    rw [hobject, field?] at hfield
    obtain ⟨_, _, _, hvalue⟩ := mem_of_readMembers hpairs _ (hmem _ (mem_of_lookup hfield))
    exact fewDigits_of_readValue hvalue

end SourceMaps.Json
