import SourceMaps.Json.Reader
import SourceMaps.Proofs.Text.Numeral

/-!
# JSON numbers: integers of limited length

An integer has a text that is read back exactly if it has no more digits than the reader takes. The
reader never gives a longer one.

## Main definitions

* `Json.FewDigits`: the integers that are read.
* `Json.EndsNumber`: what may stand behind a number.

## Main statements

* `Json.readNumber_ofInt`: a spelled integer is read back.
* `Json.fewDigits_of_readNumber`: an integer that was read has few digits.
-/

namespace SourceMaps.Json

/-- The integers with no more digits than are read. -/
def FewDigits (i : Int) : Prop := (Nat.digits 10 i.natAbs).length ≤ digitLimit

/-- A text that does not go on with a number: no digit, point or exponent comes first. -/
def EndsNumber (rest : Text) : Prop :=
  ∀ c ∈ rest.head?, isDigit c = false ∧ c ≠ '.' ∧ c ≠ 'e' ∧ c ≠ 'E'

/-! ### Reading what was spelled -/

theorem isDigit_digit {d : Nat} (h : d < 10) : isDigit (Numeral.digit d) = true := by
  rw [isDigit, Numeral.digit?_digit h, Option.isSome_some]

theorem digit_ne_zero {d : Nat} (h : d < 10) (hd : d ≠ 0) : Numeral.digit d ≠ '0' := by
  intro heq
  have hread := Numeral.digit?_digit h
  rw [heq] at hread
  exact hd (Option.some.inj hread).symm

theorem digit_ne_minus {d : Nat} (h : d < 10) : Numeral.digit d ≠ '-' := by
  intro heq
  have hread := Numeral.digit?_digit h
  rw [heq] at hread
  cases hread

theorem readDigits_ofNat (n : Nat) {rest : Text} (h : EndsNumber rest) :
    readDigits (Numeral.ofNat n ++ rest) = (Numeral.decimals n, rest) := by
  have hdigits : ∀ d ∈ Numeral.decimals n, d < 10 := fun d => Numeral.lt_of_mem_decimals
  have hall : ∀ c ∈ Numeral.ofNat n, isDigit c = true := by
    intro c hc
    rw [Numeral.ofNat_eq] at hc
    obtain ⟨d, hd, rfl⟩ := List.mem_map.mp hc
    exact isDigit_digit (hdigits d hd)
  have hnone : rest.takeWhile isDigit = [] ∧ rest.dropWhile isDigit = rest := by
    cases rest with
    | nil => exact ⟨rfl, rfl⟩
    | cons c rest =>
      have hc : isDigit c = false := (h c rfl).1
      simp [hc]
  rw [readDigits, List.takeWhile_append_of_pos hall, List.dropWhile_append_of_pos hall, hnone.1,
    hnone.2, List.append_nil, Numeral.ofNat_eq, Numeral.filterMap_digit hdigits]

/-- The first digit of a numeral, which is a zero only if nothing follows. -/
theorem exists_digit_of_ofNat (n : Nat) :
    ∃ d tail, d < 10 ∧ Numeral.ofNat n = Numeral.digit d :: tail ∧ (n ≠ 0 → d ≠ 0) := by
  obtain ⟨d, tail, hdecimals⟩ := List.exists_cons_of_ne_nil (Numeral.decimals_ne_nil n)
  have hmem : d ∈ Numeral.decimals n := by simp [hdecimals]
  refine ⟨d, tail.map Numeral.digit, Numeral.lt_of_mem_decimals hmem, ?_, fun hn hd => ?_⟩
  · rw [Numeral.ofNat_eq, hdecimals, List.map_cons]
  · apply Numeral.head?_decimals_ne_zero hn
    rw [hdecimals, hd, List.head?_cons]

theorem readWhole_ofNat (n : Nat) {rest : Text} (h : EndsNumber rest) :
    readWhole (Numeral.ofNat n ++ rest) = (Numeral.decimals n, rest) := by
  by_cases hn : n = 0
  · subst hn
    have hspelled : Numeral.ofNat 0 = [↑ '0'] := by rw [Numeral.ofNat, if_pos (by decide)]; rfl
    rw [hspelled, List.singleton_append, readWhole, if_pos rfl, Numeral.decimals]
    rfl
  · have hread := readDigits_ofNat n h
    obtain ⟨d, tail, hd, hspelled, hzero⟩ := exists_digit_of_ofNat n
    rw [hspelled, List.cons_append] at hread ⊢
    rw [readWhole, if_neg (digit_ne_zero hd (hzero hn)), hread]

theorem readFraction_of_endsNumber {rest : Text} (h : EndsNumber rest) :
    readFraction rest = ([], rest) := by
  cases rest with
  | nil => rfl
  | cons c rest =>
    obtain ⟨-, hpoint, -, -⟩ := h c rfl
    rw [readFraction, if_neg hpoint]

theorem readExponent_of_endsNumber {rest : Text} (h : EndsNumber rest) :
    readExponent rest = (none, rest) := by
  cases rest with
  | nil => rfl
  | cons c rest =>
    obtain ⟨-, -, hsmall, hcapital⟩ := h c rfl
    have hmark : ¬(c = 'e' ∨ c = 'E') := fun hc => hc.elim hsmall hcapital
    rw [readExponent, if_neg hmark]

/-- A spelled integer of few digits is read back if no number goes on behind it. -/
theorem readNumber_ofInt {i : Int} (hi : FewDigits i) {rest : Text} (h : EndsNumber rest) :
    readNumber (Numeral.ofInt i ++ rest) = .ok (.int i, rest) := by
  have hlimit (n : Nat) (hn : (Nat.digits 10 n).length ≤ digitLimit) :
      ¬digitLimit < (Numeral.decimals n).length :=
    Nat.not_lt.mpr (Numeral.length_decimals_le (by decide) hn)
  have hwhole (n : Nat) := readWhole_ofNat n h
  have hfraction := readFraction_of_endsNumber h
  have hexponent := readExponent_of_endsNumber h
  have hne (n : Nat) : ∃ d tail, Numeral.decimals n = d :: tail :=
    List.exists_cons_of_ne_nil (Numeral.decimals_ne_nil n)
  cases i with
  | ofNat n =>
    obtain ⟨d, tail, hdecimals⟩ := hne n
    obtain ⟨e, others, he, hspelled, -⟩ := exists_digit_of_ofNat n
    have hlimit := hlimit n hi
    have hvalue := Numeral.value_decimals n
    have hwhole := hwhole n
    rw [hdecimals] at hlimit hvalue hwhole
    rw [Numeral.ofInt]
    rw [hspelled, List.cons_append] at hwhole ⊢
    rw [readNumber]
    simp only [if_neg (digit_ne_minus he), hwhole, hfraction, hexponent, List.isEmpty_nil,
      Option.isNone_none, and_self, if_true, if_neg hlimit, hvalue, Bool.false_eq_true, if_false]
    rfl
  | negSucc n =>
    obtain ⟨d, tail, hdecimals⟩ := hne (n + 1)
    have hlimit := hlimit (n + 1) hi
    have hvalue := Numeral.value_decimals (n + 1)
    have hwhole := hwhole (n + 1)
    rw [hdecimals] at hlimit hvalue hwhole
    rw [Numeral.ofInt, List.cons_append, readNumber]
    simp only [if_true, hwhole, hfraction, hexponent, List.isEmpty_nil, Option.isNone_none,
      and_self, if_neg hlimit, hvalue]
    rfl

/-! ### What is read -/

theorem value_lt {digits : List Nat} (h : ∀ d ∈ digits, d < 10) :
    Numeral.value digits < 10 ^ digits.length := by
  induction digits using List.reverseRecOn with
  | nil => simp [Numeral.value]
  | append_singleton digits d ih =>
    have hd : d < 10 := h d (by simp)
    have hvalue := ih fun e he => h e (List.mem_append_left _ he)
    rw [Numeral.value_concat, List.length_append, List.length_singleton, pow_succ]
    omega

theorem lt_of_digit? {c : CodePoint} {d : Nat} (h : Numeral.digit? c = some d) : d < 10 := by
  unfold Numeral.digit? at h
  split at h
  · next hc =>
    obtain rfl := Option.some.inj h
    have hnine : '9'.toNat = '0'.toNat + 9 := rfl
    omega
  · cases h

theorem lt_of_mem_readWhole {text : Text} : ∀ d ∈ (readWhole text).1, d < 10 := by
  intro d hd
  have hread {text : Text} (hd : d ∈ (readDigits text).1) : d < 10 := by
    obtain ⟨c, -, hc⟩ := List.mem_filterMap.mp hd
    exact lt_of_digit? hc
  unfold readWhole at hd
  split at hd
  · split at hd
    · simp at hd
      omega
    · exact hread hd
  · simp at hd

theorem fewDigits_of_readNumber {text rest : Text} {i : Int}
    (h : readNumber text = .ok (.int i, rest)) : FewDigits i := by
  unfold readNumber at h
  simp only at h
  split at h
  · cases h
  · next whole rest' _ hwhole =>
    split at h
    · split at h
      · cases h
      · next hlimit =>
        have hdigits : ∀ d ∈ whole, d < 10 := by
          intro d hd
          apply lt_of_mem_readWhole d
          rw [hwhole]
          exact hd
        have hsize : i.natAbs = Numeral.value whole := by
          cases h
          split <;> omega
        rw [FewDigits, hsize]
        have hlength := (Nat.digits_length_le_iff (by omega : 1 < 10) _).mpr (value_lt hdigits)
        omega
    · cases h

end SourceMaps.Json
