import SourceMaps.Double.Basic
import SourceMaps.Text.Numeral

/-!
# Shortest decimals

The decimal spelling of a binary64 number: the fewest digits that read back as the same number,
and of those the nearest. A number reads back exactly from the decimals of its rounding interval,
whose ends belong to it when the significand is even.

## Main definitions

* `Double.interval`: the rounding interval of a positive number.
* `Double.shortest`: digits and power of ten of the shortest decimal.
* `Double.spelling`: the text of a number, positional for decimal exponents from -4 to 15 and
  with an exponent otherwise.
-/

namespace SourceMaps.Double

/-- A rounding interval: bounds and value in units of `1 / denominator`. -/
structure Interval where
  /-- The lower end. -/
  low : Nat
  /-- The number itself. -/
  value : Nat
  /-- The upper end. -/
  high : Nat
  /-- The common denominator. -/
  denominator : Nat
  /-- Do the ends round to the number? -/
  closed : Bool

/-- The reals that round to a positive number. Below a power of two the neighbours are closer. -/
def interval (significand : Nat) (exponent : Int) : Interval :=
  let below := if significand = leastNormal ∧ leastExponent < exponent then 1 else 2
  let unit := exponent - 2
  let factor := 1 <<< unit.toNat
  { low := (4 * significand - below) * factor
    value := 4 * significand * factor
    high := (4 * significand + 2) * factor
    denominator := 1 <<< (-unit).toNat
    closed := significand % 2 = 0 }

/-- Does `digits * 10 ^ power` lie in the interval? -/
def Interval.holds (i : Interval) (digits : Nat) (power : Int) : Bool :=
  let x := digits * tenTo power.toNat * i.denominator
  let scale := tenTo (-power).toNat
  if i.closed then i.low * scale ≤ x && x ≤ i.high * scale
  else i.low * scale < x && x < i.high * scale

/-- The power of ten of the first digit of `numerator / denominator`, found from an estimate that is
too small by counting up. -/
def leadingPower (numerator denominator : Nat) : (tries : Nat) → (estimate : Int) → Int
  | 0, power => power
  | tries + 1, power =>
    if numerator * tenTo (-(power + 1)).toNat < denominator * tenTo (power + 1).toNat then power
    else leadingPower numerator denominator tries (power + 1)

/-- The decimal with `count` digits that is nearest to the number among those that read back. -/
def Interval.nearest? (i : Interval) (leading : Int) (count : Nat) : Option (Nat × Int) :=
  let power := leading - (count - 1)
  let n := i.value * tenTo (-power).toNat
  let d := i.denominator * tenTo power.toNat
  let floor := n / d
  let nearer := roundQuotient n d
  let farther := if nearer = floor then floor + 1 else floor
  if i.holds nearer power then some (nearer, power)
  else if i.holds farther power then some (farther, power)
  else none

/-- Digits and power of ten of the shortest decimal of a positive number. Seventeen digits always
suffice. -/
def shortest (significand : Nat) (exponent : Int) : Nat × Int :=
  let i := interval significand exponent
  let estimate := ((significand.log2 : Int) + exponent) * 30103 / 100000 - 2
  let leading := leadingPower i.value i.denominator 8 estimate
  ((List.range 17).findSome? fun k => i.nearest? leading (k + 1)).getD (significand, exponent)

/-- Decimal digits with the point after the first `whole` of them, zeros filling up on both
sides. -/
def positional (digits : Text) (whole : Int) : Text :=
  let zeros (count : Nat) : Text := List.replicate count '0'
  let point : Text := "."
  if whole ≤ 0 then zeros 1 ++ point ++ zeros (-whole).toNat ++ digits
  else if whole.toNat < digits.length then
    digits.take whole.toNat ++ point ++ digits.drop whole.toNat
  else digits ++ zeros (whole.toNat - digits.length) ++ point ++ zeros 1

/-- Decimal digits with one of them before the point, and an exponent of at least two digits. -/
def scientific (digits : Text) (exponent : Int) : Text :=
  let size := Numeral.ofNat exponent.natAbs
  let padding : Text := if size.length < 2 then "0" else ""
  let fraction : Text := if digits.length ≤ 1 then "" else ↑ '.' :: digits.drop 1
  let mark : Text := if exponent < 0 then "e-" else "e+"
  digits.take 1 ++ fraction ++ mark ++ padding ++ size

/-- The spelling of a positive number. -/
def magnitudeSpelling (significand : Nat) (exponent : Int) : Text :=
  let (digits, power) := shortest significand exponent
  let text := Numeral.ofNat digits
  let kept := Text.dropEndWhile (fun c => c = ↑ '0') text
  let leading : Int := power + text.length - 1
  if -4 ≤ leading ∧ leading < 16 then positional kept (leading + 1) else scientific kept leading

/-- The text of a number in messages. -/
def spelling : Double → Text
  | .finite negative significand exponent =>
    let magnitude : Text := if significand = 0 then "0.0" else magnitudeSpelling significand exponent
    if negative then ↑ '-' :: magnitude else magnitude
  | .infinite negative => if negative then "-inf" else "inf"
  | .nan => "nan"

end SourceMaps.Double
