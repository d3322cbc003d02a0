import SourceMaps.Text.Blank
import SourceMaps.Text.DecimalDigit
import SourceMaps.Text.Numeral

/-!
# Integers as they are typed

An integer may stand between white space, carry a sign, use the digits of any script and group them with
single underscores.

## Main definitions

* `Numeral.readInteger?`: the integer that a text spells.
-/

namespace SourceMaps.Numeral

/-- The most digits of an integer that are read. -/
def typedDigitLimit : Nat := 4300

/-- The digits of a text in which single underscores may stand between digits; `afterDigit` says
whether a digit stands before. -/
def groupedDigits? (afterDigit : Bool) : Text → Option (List Nat)
  | [] => if afterDigit then some [] else none
  | c :: rest =>
    match c.decimalDigit? with
    | some d => (d :: ·) <$> groupedDigits? true rest
    | none => if c = '_' ∧ afterDigit then groupedDigits? false rest else none

/-- The number of a text of grouped digits. -/
def readNatural? (text : Text) : Option Nat := do
  let digits ← groupedDigits? false text
  if typedDigitLimit < digits.length then none else some (value digits)

/-- The integer that a text spells. -/
def readInteger? (text : Text) : Option Int :=
  match text.strip with
  | [] => none
  | c :: rest =>
    if c = '-' then (readNatural? rest).map fun n => -(n : Int)
    else if c = '+' then (readNatural? rest).map fun n => (n : Int)
    else (readNatural? (c :: rest)).map fun n => (n : Int)

end SourceMaps.Numeral
