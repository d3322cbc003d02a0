import SourceMaps.Fault

/-!
# Base64 VLQ

The spelling of integers in a mappings text. The sign moves into the lowest bit, the result is cut
into groups of five bits, least significant first, and each group is one base64 character, whose
sixth bit says that more groups follow.

## Main definitions

* `Vlq.InRange`: the integers that have a spelling, those of 32 bits.
* `Vlq.digit?`, `Vlq.character`: the base64 alphabet.
* `Vlq.encode`: the spelling of a list of integers.
* `Vlq.decode`: the integers that a text spells, over-long spellings included.
-/

namespace SourceMaps.Vlq

/-- The integers of 32 bits. -/
def InRange (value : Int) : Prop := -0x80000000 ≤ value ∧ value ≤ 0x7FFFFFFF

instance (value : Int) : Decidable (InRange value) :=
  inferInstanceAs (Decidable (_ ∧ _))

/-- The base64 alphabet, in the order of the digits' values. -/
def alphabet : Text := "ABCDEFGHIJKLMNOPQRSTUVWXYZabcdefghijklmnopqrstuvwxyz0123456789+/"

/-- The character of a base64 digit. -/
def character (digit : Nat) : CodePoint := alphabet.getD digit ↑ 'A'

/-- The value of a base64 digit; other code points have none. -/
def digit? (c : CodePoint) : Option Nat := alphabet.idxOf? c

/-- The number whose lowest bit is the sign of an integer and whose other bits are its magnitude. -/
def zigzag (value : Int) : Nat :=
  if value < 0 then 2 * value.natAbs + 1 else 2 * value.natAbs

/-- The integer with the given sign bit and magnitude; a negative zero is zero. -/
def unzigzag (raw : Nat) : Int :=
  if raw % 2 = 1 then -((raw / 2 : Nat) : Int) else (raw / 2 : Nat)

/-- The groups of a number, each but the last marked as continued. -/
def groups (raw : Nat) : List Nat :=
  if raw < 32 then [raw] else (raw % 32 + 32) :: groups (raw / 32)

/-- The shortest spelling of an integer. -/
def encodeInt (value : Int) : Except Fault Text :=
  if InRange value then .ok ((groups (zigzag value)).map character)
  else .error (.unspeakable value)

/-- The spellings of integers, one after the other. -/
def encode : List Int → Except Fault Text
  | [] => .ok []
  | value :: rest => do
    let first ← encodeInt value
    let others ← encode rest
    return first ++ others

/-- Decodes the end of `whole` that begins at `offset`. Of the number that is begun, `raw` holds the
groups read so far and `shift` their count of bits. -/
def decodeFrom (whole : Text) (offset raw shift : Nat) : Text → Except Fault (List Int)
  | [] => if shift = 0 then .ok [] else .error (.truncatedNumber whole)
  | c :: rest =>
    match digit? c with
    | none => .error (.strayCharacter c offset whole)
    | some digit =>
      let raw := raw + (digit % 32) <<< shift
      if 32 ≤ digit then decodeFrom whole (offset + 1) raw (shift + 5) rest
      else
        let value := unzigzag raw
        if InRange value then (value :: ·) <$> decodeFrom whole (offset + 1) 0 0 rest
        else .error (.wideNumber whole)

/-- The integers that a text spells. -/
def decode (text : Text) : Except Fault (List Int) := decodeFrom text 0 0 0 text

end SourceMaps.Vlq
