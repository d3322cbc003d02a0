import Mathlib.Data.Nat.Digits.Lemmas
import SourceMaps.Text.Numeral

/-!
# Numerals: digits and their values

A numeral consists of the digits of its number, most significant first and without leading zeros,
and the number is found again from them.

## Main definitions

* `Numeral.decimals`: the decimal digits of a number, most significant first.

## Main statements

* `Numeral.ofNat_eq`: a numeral spells the decimal digits.
* `Numeral.value_decimals`: the digits make up the number.
* `Numeral.hexDigit?_hexDigit`, `Numeral.hex_four`: hexadecimal digits.
-/

namespace SourceMaps.Numeral

/-! ### Decimal digits -/

/-- The decimal digits of a number, most significant first. -/
def decimals (n : Nat) : List Nat := if n = 0 then [0] else (Nat.digits 10 n).reverse

theorem decimals_of_lt {n : Nat} (h : n < 10) : decimals n = [n] := by
  unfold decimals
  split
  · next hzero => rw [hzero]
  · next hzero => rw [Nat.digits_of_lt 10 n hzero h, List.reverse_singleton]

theorem decimals_of_le {n : Nat} (h : 10 ≤ n) : decimals n = decimals (n / 10) ++ [n % 10] := by
  have hn : n ≠ 0 := by omega
  have hquotient : n / 10 ≠ 0 := by omega
  rw [decimals, decimals, if_neg hn, if_neg hquotient,
    Nat.digits_def' (by omega : 1 < 10) (by omega : 0 < n), List.reverse_cons]

/-- A numeral spells the digits of its number. -/
theorem ofNat_eq (n : Nat) : ofNat n = (decimals n).map digit := by
  induction n using Nat.strongRecOn with
  | ind n ih =>
    rw [ofNat]
    by_cases hn : n < 10
    · rw [if_pos hn, decimals_of_lt hn]
      rfl
    · rw [if_neg hn, ih (n / 10) (by omega), decimals_of_le (Nat.le_of_not_lt hn), List.map_append]
      rfl

theorem lt_of_mem_decimals {n d : Nat} (h : d ∈ decimals n) : d < 10 := by
  unfold decimals at h
  split at h
  · simp at h
    omega
  · exact Nat.digits_lt_base (by omega) (List.mem_reverse.mp h)

theorem decimals_ne_nil (n : Nat) : decimals n ≠ [] := by
  unfold decimals
  split
  · simp
  · next hn => simpa using Nat.digits_ne_nil_iff_ne_zero.mpr hn

/-- Only zero is spelled with a zero in front. -/
theorem head?_decimals_ne_zero {n : Nat} (h : n ≠ 0) : (decimals n).head? ≠ some 0 := by
  rw [decimals, if_neg h, List.head?_reverse,
    List.getLast?_eq_some_getLast (Nat.digits_ne_nil_iff_ne_zero.mpr h)]
  intro hlast
  exact Nat.getLast_digit_ne_zero 10 h (Option.some.inj hlast)

theorem value_concat (digits : List Nat) (d : Nat) :
    value (digits ++ [d]) = 10 * value digits + d := by
  rw [value, List.foldl_append]
  rfl

theorem value_decimals (n : Nat) : value (decimals n) = n := by
  induction n using Nat.strongRecOn with
  | ind n ih =>
    by_cases hn : n < 10
    · rw [decimals_of_lt hn]
      simp [value]
    · rw [decimals_of_le (Nat.le_of_not_lt hn), value_concat, ih (n / 10) (by omega)]
      omega

theorem length_decimals_le {n count : Nat} (hcount : 0 < count)
    (h : (Nat.digits 10 n).length ≤ count) : (decimals n).length ≤ count := by
  unfold decimals
  split
  · exact hcount
  · rwa [List.length_reverse]

/-- Every digit is read as itself. -/
theorem digit?_digit {d : Nat} (h : d < 10) : digit? (digit d) = some d := by
  have hall : ∀ d < 10, digit? (digit d) = some d := by decide
  exact hall d h

theorem filterMap_digit {digits : List Nat} (h : ∀ d ∈ digits, d < 10) :
    (digits.map digit).filterMap digit? = digits := by
  induction digits with
  | nil => rfl
  | cons d rest ih =>
    obtain ⟨hd, hrest⟩ := List.forall_mem_cons.mp h
    rw [List.map_cons, List.filterMap_cons, digit?_digit hd, ih hrest]

/-! ### Hexadecimal digits -/

theorem hexDigit?_hexDigit {d : Nat} (h : d < 16) : hexDigit? (hexDigit d) = some d := by
  have hall : ∀ d < 16, hexDigit? (hexDigit d) = some d := by decide
  exact hall d h

/-- Four digits, of which the first stands for the highest bits. -/
theorem hex_four (n : Nat) :
    hex 4 n = [hexDigit (n / 4096 % 16), hexDigit (n / 256 % 16), hexDigit (n / 16 % 16),
      hexDigit (n % 16)] := by
  simp only [hex, List.nil_append, List.cons_append, Nat.div_div_eq_div_mul]

end SourceMaps.Numeral
