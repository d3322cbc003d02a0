import SourceMaps.Text.Numeral
import SourceMaps.Text.WideUnits

/-!
# The layout of blobs

A blob is made of records of two numbers, each of four bytes with the lowest byte first. A record is
read at an offset, which counts from the end of the data if it is negative.

## Main definitions

* `Blob.LayoutError`: why there is no record at an offset.
* `Blob.recordOffset`, `Blob.readPair`: the place of a record and its numbers.
-/

namespace SourceMaps.Blob

/-- The size of a record. -/
def recordSize : Nat := 8

/-- The number in the four bytes at an offset. -/
def number (data : Bytes) (offset : Nat) : Nat :=
  Bytes.number false ((data.drop offset).take 4)

/-- Why there is no record at an offset. -/
inductive LayoutError where
  /-- The record would end past the end of the data. -/
  | beyondEnd (offset size : Nat)
  /-- A negative offset, which counts from the end, reaches back before the data. -/
  | beforeStart (offset : Int) (size : Nat)
  /-- A negative offset leaves less than a record to the end. -/
  | nearEnd (offset : Int)
deriving DecidableEq

/-- The words of a layout error. -/
def LayoutError.message : LayoutError → Text
  | .beyondEnd offset size =>
    "unpack_from requires a buffer of at least " ++ Numeral.ofNat (offset + recordSize) ++
      " bytes for unpacking 8 bytes at offset " ++ Numeral.ofNat offset ++
      " (actual buffer size is " ++ Numeral.ofNat size ++ ")"
  | .beforeStart offset size =>
    "offset " ++ Numeral.ofInt offset ++ " out of range for " ++ Numeral.ofNat size ++
      "-byte buffer"
  | .nearEnd offset => "not enough data to unpack 8 bytes at offset " ++ Numeral.ofInt offset

/-- The offset of a record in data of the given size; negative offsets count from the end. -/
def recordOffset (size : Nat) (offset : Int) : Except LayoutError Nat :=
  if offset < 0 ∧ 0 < offset + recordSize then .error (.nearEnd offset)
  else if offset < 0 ∧ offset + size < 0 then .error (.beforeStart offset size)
  else
    let start := (if offset < 0 then offset + size else offset).toNat
    if size < start + recordSize then .error (.beyondEnd start size) else .ok start

/-- The two numbers of the record at an offset. -/
def readPair (data : Bytes) (offset : Int) : Except LayoutError (Nat × Nat) := do
  let start ← recordOffset data.length offset
  return (number data start, number data (start + 4))

end SourceMaps.Blob
