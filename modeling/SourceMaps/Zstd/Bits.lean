/-!
# Bits of byte strings

The bits of a byte string are numbered from the lowest one of the first byte. Tables are read
forward; entropy-coded streams are read backward from a marker, the highest set bit of the last
byte, and may be read past their beginning, where all bits are zero.

## Main definitions

* `Zstd.byteAt`, `Zstd.littleEndian`, `Zstd.bitsAt`: bytes, numbers and bits at a position.
* `Zstd.BackwardBits`: what is left of a stream that is read backward.
-/

namespace SourceMaps.Zstd

/-- The byte at a position; zero past the end. -/
def byteAt (data : ByteArray) (position : Nat) : UInt8 :=
  if h : position < data.size then data[position] else 0

/-- The number in `count` bytes from a position on, lowest byte first. -/
def littleEndian (data : ByteArray) (position : Nat) : (count : Nat) → Nat
  | 0 => 0
  | count + 1 => (byteAt data position).toNat + 256 * littleEndian data (position + 1) count

/-- The number in `count` bits from a bit position on, lowest bit first. -/
def bitsAt (data : ByteArray) (position count : Nat) : Nat :=
  let raw := littleEndian data (position / 8) ((position % 8 + count + 7) / 8)
  (raw >>> (position % 8)) % (1 <<< count)

/-- A stream that is read backward. -/
structure BackwardBits where
  /-- The bytes of the stream. -/
  data : ByteArray
  /-- The number of bits left; negative once bits before the first one have been read. -/
  left : Int

namespace BackwardBits

/-- The stream in some bytes, without its marker. -/
def ofBytes? (data : ByteArray) : Option BackwardBits :=
  let last := (byteAt data (data.size - 1)).toNat
  if data.size = 0 ∨ last = 0 then none
  else some ⟨data, 8 * (data.size - 1) + last.log2⟩

/-- The next bits as a number, the first of them the highest. -/
def peek (bits : BackwardBits) (count : Nat) : Nat :=
  if (count : Int) ≤ bits.left then bitsAt bits.data (bits.left - count).toNat count
  else (bitsAt bits.data 0 bits.left.toNat <<< (count - bits.left).toNat) % (1 <<< count)

/-- The stream after some bits. -/
def skip (bits : BackwardBits) (count : Nat) : BackwardBits :=
  { bits with left := bits.left - count }

/-- The next bits and the stream after them. -/
def read (bits : BackwardBits) (count : Nat) : Nat × BackwardBits :=
  (bits.peek count, bits.skip count)

/-- Have bits been read that the stream does not have? -/
def isOverrun (bits : BackwardBits) : Bool := bits.left < 0

/-- Have all bits been read, and none beyond? -/
def isFinished (bits : BackwardBits) : Bool := bits.left == 0

end BackwardBits

end SourceMaps.Zstd
