import SourceMaps.Zstd.Bits

/-!
# Checksums

The 64-bit hash of the contents of a frame, with seed zero. Four lanes take eight bytes each of
every 32; the bytes that are left over are mixed in at the end.

## Main definitions

* `Zstd.Checksum.hash`: the hash of a byte string.
-/

namespace SourceMaps.Zstd.Checksum

/-- The multipliers of the hash. -/
def prime₁ : UInt64 := 0x9E3779B185EBCA87

/-- The second multiplier. -/
def prime₂ : UInt64 := 0xC2B2AE3D27D4EB4F

/-- The third multiplier. -/
def prime₃ : UInt64 := 0x165667B19E3779F9

/-- The fourth multiplier. -/
def prime₄ : UInt64 := 0x85EBCA77C2B2AE63

/-- The fifth multiplier. -/
def prime₅ : UInt64 := 0x27D4EB2F165667C5

/-- A word with its bits rotated toward the higher ones. -/
def rotate (x : UInt64) (by_ : UInt64) : UInt64 := (x <<< by_) ||| (x >>> (64 - by_))

/-- The word of eight bytes. -/
def word (data : ByteArray) (position : Nat) : UInt64 := .ofNat (littleEndian data position 8)

/-- A lane after one more word. -/
def round (lane input : UInt64) : UInt64 := rotate (lane + input * prime₂) 31 * prime₁

/-- The four lanes. -/
structure Lanes where
  a : UInt64 := prime₁ + prime₂
  b : UInt64 := prime₂
  c : UInt64 := 0
  d : UInt64 := 0 - prime₁

/-- The lanes after a number of stripes of 32 bytes. -/
def stripes (data : ByteArray) : (count position : Nat) → Lanes → Lanes
  | 0, _, lanes => lanes
  | count + 1, position, lanes =>
    stripes data count (position + 32)
      ⟨round lanes.a (word data position), round lanes.b (word data (position + 8)),
        round lanes.c (word data (position + 16)), round lanes.d (word data (position + 24))⟩

/-- The hash with a lane merged into it. -/
def mergeLane (hash lane : UInt64) : UInt64 := (hash ^^^ round 0 lane) * prime₁ + prime₄

/-- The lanes as one word. -/
def Lanes.merged (l : Lanes) : UInt64 :=
  [l.a, l.b, l.c, l.d].foldl mergeLane
    (rotate l.a 1 + rotate l.b 7 + rotate l.c 12 + rotate l.d 18)

/-- Mixes in a number of words of eight bytes. -/
def mixWords (data : ByteArray) : (count position : Nat) → UInt64 → UInt64
  | 0, _, hash => hash
  | count + 1, position, hash =>
    mixWords data count (position + 8)
      (rotate (hash ^^^ round 0 (word data position)) 27 * prime₁ + prime₄)

/-- Mixes in a number of single bytes. -/
def mixBytes (data : ByteArray) : (count position : Nat) → UInt64 → UInt64
  | 0, _, hash => hash
  | count + 1, position, hash =>
    mixBytes data count (position + 1)
      (rotate (hash ^^^ (.ofNat (byteAt data position).toNat * prime₅)) 11 * prime₁)

/-- Spreads the bits of the hash. -/
def avalanche (hash : UInt64) : UInt64 :=
  let hash := (hash ^^^ (hash >>> 33)) * prime₂
  let hash := (hash ^^^ (hash >>> 29)) * prime₃
  hash ^^^ (hash >>> 32)

/-- The hash of a byte string. -/
def hash (data : ByteArray) : UInt64 :=
  let size := data.size
  let start := size / 32 * 32
  let hash := if size < 32 then prime₅ else (stripes data (size / 32) 0 {}).merged
  let hash := hash + .ofNat size
  let hash := mixWords data (size % 32 / 8) start hash
  let position := start + size % 32 / 8 * 8
  let half := size % 8 / 4
  let hash :=
    if half = 1 then
      rotate (hash ^^^ (.ofNat (littleEndian data position 4) * prime₁)) 23 * prime₂ + prime₃
    else hash
  avalanche (mixBytes data (size % 4) (position + 4 * half) hash)

end SourceMaps.Zstd.Checksum
