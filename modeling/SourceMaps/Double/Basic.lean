/-!
# Binary64 numbers

The numbers of the IEEE 754 binary64 format in exact arithmetic. A finite number is a significand
below `2 ^ 53` times a power of two with an exponent of at least `-1074`; a significand below
`2 ^ 52` occurs only with that least exponent.

## Main definitions

* `Double`: finite numbers, the infinities and the number that is none.
* `Double.ofRatio`: the nearest binary64 number to a quotient, ties to the even significand.
* `Double.ofDecimal`: the nearest one to a decimal.
* `Double.timesNat`: the rounded product with a natural number.
* `Double.truncate`: the integer part.
-/

namespace SourceMaps

/-- A binary64 number. The value of `finite s m e` is `m * 2 ^ e`, negated if `s` is set; a zero
has a sign too. -/
inductive Double where
  | finite (negative : Bool) (significand : Nat) (exponent : Int)
  | infinite (negative : Bool)
  | nan
deriving DecidableEq

namespace Double

/-- The exponent of the smallest positive number. -/
def leastExponent : Int := -1074

/-- The exponent of the largest finite number. -/
def greatestExponent : Int := 971

/-- The least significand of 53 bits, that of a power of two. -/
def leastNormal : Nat := 0x10000000000000

/-- A power of ten. -/
def tenTo (exponent : Nat) : Nat := Nat.pow 10 exponent

/-- A zero with a sign. -/
def signedZero (negative : Bool) : Double := .finite negative 0 leastExponent

/-- The integer nearest to a quotient, the even one of two. -/
def roundQuotient (numerator denominator : Nat) : Nat :=
  let quotient := numerator / denominator
  let twice := 2 * (numerator % denominator)
  if denominator < twice ∨ (twice = denominator ∧ quotient % 2 = 1) then quotient + 1
  else quotient

/-- The quotient `numerator / (denominator * 2 ^ exponent)` as a pair of natural numbers. -/
def scaled (numerator denominator : Nat) (exponent : Int) : Nat × Nat :=
  if 0 ≤ exponent then (numerator, denominator <<< exponent.toNat)
  else (numerator <<< (-exponent).toNat, denominator)

/-- The exponent with which the quotient has a significand of 53 bits, or the least exponent. -/
def exponentOf (numerator denominator : Nat) : Int :=
  let low := (numerator.log2 : Int) - denominator.log2 - 53
  let (n, d) := scaled numerator denominator low
  max leastExponent (if n / d < 2 * leastNormal then low else low + 1)

/-- The binary64 number nearest to a quotient with a positive denominator. -/
def ofRatio (negative : Bool) (numerator denominator : Nat) : Double :=
  if numerator = 0 then signedZero negative
  else
    let exponent := exponentOf numerator denominator
    let (n, d) := scaled numerator denominator exponent
    let significand := roundQuotient n d
    let (significand, exponent) :=
      if significand = 2 * leastNormal then (leastNormal, exponent + 1) else (significand, exponent)
    if greatestExponent < exponent then .infinite negative
    else .finite negative significand exponent

/-- The binary64 number nearest to `digits * 10 ^ exponent`. Decimals far outside the range of the
format are settled by their magnitude alone. -/
def ofDecimal (negative : Bool) (digits : Nat) (exponent : Int) : Double :=
  let magnitude := ((digits.log2 * 30103 / 100000 : Nat) : Int) + exponent
  if digits = 0 ∨ magnitude < -400 then signedZero negative
  else if 400 < magnitude then .infinite negative
  else if 0 ≤ exponent then ofRatio negative (digits * tenTo exponent.toNat) 1
  else ofRatio negative digits (tenTo (-exponent).toNat)

/-- The value of a significand and an exponent as a quotient of natural numbers. -/
def ratio (significand : Nat) (exponent : Int) : Nat × Nat :=
  if 0 ≤ exponent then (significand <<< exponent.toNat, 1)
  else (significand, 1 <<< (-exponent).toNat)

/-- The product with a positive natural number, rounded to binary64. -/
def timesNat (k : Nat) : Double → Double
  | .finite negative significand exponent =>
    let (n, d) := ratio significand exponent
    ofRatio negative (n * k) d
  | x => x

/-- The integer part of a finite number, rounded toward zero. -/
def truncate : Double → Option Int
  | .finite negative significand exponent =>
    let (n, d) := ratio significand exponent
    let whole : Int := n / d
    some (if negative then -whole else whole)
  | _ => none

/-- Is the number equal to the given integer? -/
def equalsInt (x : Double) (i : Int) : Bool :=
  match x with
  | .finite negative significand exponent =>
    let (n, d) := ratio significand exponent
    (if negative then -(n : Int) else n) == i * d
  | _ => false

/-- Numeric equality: a number that is none differs from all, and the zeros are equal. -/
def numEq : Double → Double → Bool
  | .finite s m e, .finite s' m' e' => (m == 0 && m' == 0) || (s == s' && m == m' && e == e')
  | .infinite s, .infinite s' => s == s'
  | _, _ => false

end Double

end SourceMaps
