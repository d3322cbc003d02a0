import Mathlib.Data.List.Chain
import SourceMaps.Proofs.Text.CodePoint
import SourceMaps.Text.WideUnits

/-!
# Texts with surrogates

A text may hold a high surrogate right before a low one. Where code points are spelled in units of
16 bits, the two are spelled like the one code point past U+FFFF that they make up, so only texts
without such neighbours can be told from what they are spelled as.

## Main definitions

* `Text.paired`: the text with neighbours of this kind joined.
* `Text.IsSettled`: texts without them.

## Main statements

* `Text.isSettled_paired`: joining once is enough.
* `Text.paired_eq_self_iff`: the texts that stay as they are.
-/

namespace SourceMaps

namespace Utf16

theorem pair?_eq_some_iff {high low : Nat} {c : CodePoint} : pair? high low = some c ↔
    (0xD800 ≤ high ∧ high < 0xDC00 ∧ 0xDC00 ≤ low ∧ low < 0xE000) ∧
      c.toNat = 0x10000 + (high - 0xD800) * 0x400 + (low - 0xDC00) := by
  unfold pair?
  split
  · next h =>
    have hlt : 0x10000 + (high - 0xD800) * 0x400 + (low - 0xDC00) < 0x110000 := by omega
    rw [CodePoint.ofNat, dif_pos hlt, Option.some.injEq, and_iff_right h]
    cases c
    simp [eq_comm]
  · next h => exact iff_of_false (Option.some_ne_none c).symm fun hc => h hc.1

theorem pair?_eq_none_of_high {high low : Nat} (h : high < 0xD800 ∨ 0xDC00 ≤ high) :
    pair? high low = none := if_neg (by omega)

theorem pair?_eq_none_of_low {high low : Nat} (h : low < 0xDC00 ∨ 0xE000 ≤ low) :
    pair? high low = none := if_neg (by omega)

end Utf16

namespace Text

variable {text : Text}

/-- The text with each high surrogate joined to the low one right behind it. -/
def paired : Text → Text
  | [] => []
  | [c] => [c]
  | c :: d :: rest =>
    match Utf16.pair? c.toNat d.toNat with
    | some joint => joint :: paired rest
    | none => c :: paired (d :: rest)

/-- No high surrogate stands right before a low one. -/
def IsSettled (text : Text) : Prop :=
  text.IsChain fun c d => Utf16.pair? c.toNat d.toNat = none

instance (text : Text) : Decidable text.IsSettled :=
  inferInstanceAs (Decidable (text.IsChain fun c d => Utf16.pair? c.toNat d.toNat = none))

theorem isSettled_cons {c : CodePoint} : IsSettled (c :: text) ↔
    (∀ d ∈ text.head?, Utf16.pair? c.toNat d.toNat = none) ∧ text.IsSettled := List.isChain_cons

theorem IsScalar.isSettled (h : text.IsScalar) : text.IsSettled := by
  induction text with
  | nil => exact .nil
  | cons c rest ih =>
    obtain ⟨hc, hrest⟩ := List.forall_mem_cons.mp h
    rw [CodePoint.not_isSurrogate_iff] at hc
    exact isSettled_cons.mpr ⟨fun _ _ => Utf16.pair?_eq_none_of_high (by omega), ih hrest⟩

/-- What stands first after joining goes with a code point in front of it no more than what stood
first before. -/
theorem pair?_head?_paired {unit : Nat} (h : ∀ d ∈ text.head?, Utf16.pair? unit d.toNat = none) :
    ∀ d ∈ text.paired.head?, Utf16.pair? unit d.toNat = none := by
  fun_cases paired text with
  | case1 => exact nofun
  | case2 c => exact h
  | case3 c d rest joint hjoint =>
    rintro _ ⟨⟩
    obtain ⟨-, hvalue⟩ := Utf16.pair?_eq_some_iff.mp hjoint
    exact Utf16.pair?_eq_none_of_low (by omega)
  | case4 c d rest => exact h

/-- After joining there is nothing left to join. -/
theorem isSettled_paired (text : Text) : text.paired.IsSettled := by
  fun_induction paired text with
  | case1 => exact .nil
  | case2 c => exact .singleton c
  | case3 c d rest joint hjoint ih =>
    obtain ⟨-, hvalue⟩ := Utf16.pair?_eq_some_iff.mp hjoint
    exact isSettled_cons.mpr ⟨fun _ _ => Utf16.pair?_eq_none_of_high (by omega), ih⟩
  | case4 c d rest hnone ih =>
    refine isSettled_cons.mpr ⟨pair?_head?_paired ?_, ih⟩
    rintro _ ⟨⟩
    exact hnone

theorem IsSettled.paired_eq (h : text.IsSettled) : text.paired = text := by
  fun_induction paired text with
  | case1 => rfl
  | case2 c => rfl
  | case3 c d rest joint hjoint ih =>
    obtain ⟨hnone, -⟩ := isSettled_cons.mp h
    cases hjoint.symm.trans (hnone d rfl)
  | case4 c d rest hnone ih => rw [ih (isSettled_cons.mp h).2]

/-- The texts that joining leaves as they are. -/
theorem paired_eq_self_iff : text.paired = text ↔ text.IsSettled :=
  ⟨fun h => h ▸ text.isSettled_paired, IsSettled.paired_eq⟩

end Text

end SourceMaps
