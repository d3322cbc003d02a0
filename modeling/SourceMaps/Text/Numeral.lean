import SourceMaps.Text.CodePoint

/-!
# Numerals

Decimal and hexadecimal spellings of numbers.

## Main definitions

* `Numeral.ofNat`, `Numeral.ofInt`: the decimal spelling, without leading zeros.
* `Numeral.digit?`: the value of an ASCII digit.
* `Numeral.value`: the number that a list of decimal digits spells.
* `Numeral.hex`: a number in lower-case hexadecimal of a fixed width.
-/

namespace SourceMaps.Numeral

/-- The code point of a decimal digit. -/
def digit (d : Nat) : CodePoint := .ofNat ('0'.toNat + d)

/-- The value of an ASCII decimal digit. -/
def digit? (c : CodePoint) : Option Nat :=
  if '0'.toNat ≤ c.toNat ∧ c.toNat ≤ '9'.toNat then some (c.toNat - '0'.toNat) else none

/-- The decimal digits of a number, most significant first. -/
def ofNat (n : Nat) : Text :=
  if n < 10 then [digit n] else ofNat (n / 10) ++ [digit (n % 10)]

/-- The decimal spelling of an integer, with a minus sign when it is negative. -/
def ofInt : Int → Text
  | .ofNat n => ofNat n
  | .negSucc n => '-' :: ofNat (n + 1)

/-- The number that decimal digit values spell, most significant first. -/
def value (digits : List Nat) : Nat := digits.foldl (fun n d => 10 * n + d) 0

/-- The value of an ASCII hexadecimal digit, in either case. -/
def hexDigit? (c : CodePoint) : Option Nat :=
  if '0'.toNat ≤ c.toNat ∧ c.toNat ≤ '9'.toNat then some (c.toNat - '0'.toNat)
  else if 'a'.toNat ≤ c.toNat ∧ c.toNat ≤ 'f'.toNat then some (c.toNat - 'a'.toNat + 10)
  else if 'A'.toNat ≤ c.toNat ∧ c.toNat ≤ 'F'.toNat then some (c.toNat - 'A'.toNat + 10)
  else none

/-- The code point of a hexadecimal digit, in lower case. -/
def hexDigit (d : Nat) : CodePoint :=
  if d < 10 then digit d else .ofNat ('a'.toNat + (d - 10))

/-- The last `width` hexadecimal digits of a number, in lower case. -/
def hex : (width : Nat) → Nat → Text
  | 0, _ => []
  | width + 1, n => hex width (n / 16) ++ [hexDigit (n % 16)]

end SourceMaps.Numeral
