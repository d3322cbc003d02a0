import SourceMaps.Text.Encoding

/-!
# UTF-8

A first byte says how many bytes follow it and narrows the range of the next one; the others are
any continuation bytes. The decoders read byte by byte and keep the code point that is begun.

## Main definitions

* `Utf8.Pending`: a code point that is begun.
* `Utf8.lead?`: what a first byte begins.
* `Utf8.decode`: strict, except that surrogates in three bytes are let through.
* `Utf8.decodeLossy`: puts U+FFFD for each longest run of bytes that begins no code point or only
  begins one.
* `Utf8.encode`: the bytes of a text.
-/

namespace SourceMaps.Utf8

/-- A code point of which some bytes have been read. -/
structure Pending where
  /-- The bytes read, in order. -/
  bytes : Bytes
  /-- Their bits. -/
  value : Nat
  /-- How many bytes are to follow; at least one. -/
  owed : Nat
  /-- The least byte that may be next. -/
  low : Nat
  /-- The greatest byte that may be next. -/
  high : Nat

/-- What a byte from `0x80` on begins. With `surrogates` the three-byte forms of surrogates are
code points. -/
def lead? (surrogates : Bool) (byte : UInt8) : Option Pending :=
  let b := byte.toNat
  if b < 0xC2 then none
  else if b < 0xE0 then some ⟨[byte], b - 0xC0, 1, 0x80, 0xBF⟩
  else if b = 0xE0 then some ⟨[byte], 0, 2, 0xA0, 0xBF⟩
  else if b = 0xED then some ⟨[byte], 0xD, 2, 0x80, if surrogates then 0xBF else 0x9F⟩
  else if b < 0xF0 then some ⟨[byte], b - 0xE0, 2, 0x80, 0xBF⟩
  else if b = 0xF0 then some ⟨[byte], 0, 3, 0x90, 0xBF⟩
  else if b < 0xF4 then some ⟨[byte], b - 0xF0, 3, 0x80, 0xBF⟩
  else if b = 0xF4 then some ⟨[byte], 4, 3, 0x80, 0x8F⟩
  else none

/-- May the byte be the next one? -/
def Pending.admits (p : Pending) (byte : UInt8) : Bool :=
  p.low ≤ byte.toNat && byte.toNat ≤ p.high

/-- The pending code point with one more byte. -/
def Pending.push (p : Pending) (byte : UInt8) : Pending :=
  ⟨p.bytes ++ [byte], p.value * 64 + (byte.toNat - 0x80), p.owed - 1, 0x80, 0xBF⟩

/-- The bytes at fault when a pending code point cannot be completed: all that were read, but only
the first one where they begin a surrogate. -/
def Pending.fault (p : Pending) (position : Nat) (reason : Undecodable.Reason) : Undecodable :=
  match p.bytes with
  | first :: second :: _ =>
    if first = 0xED ∧ 0xA0 ≤ second then ⟨.utf8, [first], position, .continuationByte⟩
    else ⟨.utf8, p.bytes, position, reason⟩
  | bytes => ⟨.utf8, bytes, position, reason⟩

/-- Decodes from a byte position on; a pending code point began as many bytes earlier as it
holds. -/
def decodeFrom (position : Nat) : Option Pending → Bytes → Except Undecodable Text
  | none, [] => .ok []
  | some p, [] => .error (p.fault (position - p.bytes.length) .endOfData)
  | none, byte :: rest =>
    if byte < 0x80 then (CodePoint.ofNat byte.toNat :: ·) <$> decodeFrom (position + 1) none rest
    else match lead? true byte with
      | none => .error ⟨.utf8, [byte], position, .startByte⟩
      | some p => decodeFrom (position + 1) (some p) rest
  | some p, byte :: rest =>
    if p.admits byte then
      let q := p.push byte
      if q.owed = 0 then (CodePoint.ofNat q.value :: ·) <$> decodeFrom (position + 1) none rest
      else decodeFrom (position + 1) (some q) rest
    else .error (p.fault (position - p.bytes.length) .continuationByte)

/-- The text of UTF-8 bytes; lone surrogates in three bytes are let through. -/
def decode (bytes : Bytes) : Except Undecodable Text := decodeFrom 0 none bytes

/-- Lossy decoding with a code point pending. -/
def decodeLossyFrom : Option Pending → Bytes → Text
  | none, [] => []
  | some _, [] => [.replacement]
  | pending, byte :: rest =>
    match pending.filter (·.admits byte) with
    | some p =>
      let q := p.push byte
      if q.owed = 0 then .ofNat q.value :: decodeLossyFrom none rest
      else decodeLossyFrom (some q) rest
    | none =>
      let broken : Text := if pending.isSome then [.replacement] else []
      broken ++
        if byte < 0x80 then .ofNat byte.toNat :: decodeLossyFrom none rest
        else match lead? false byte with
          | none => .replacement :: decodeLossyFrom none rest
          | some p => decodeLossyFrom (some p) rest

/-- The text of bytes, with U+FFFD in place of what is no UTF-8. -/
def decodeLossy (bytes : Bytes) : Text := decodeLossyFrom none bytes

/-- The bytes of a code point. -/
def encodeCodePoint (c : CodePoint) : Bytes :=
  let n := c.toNat
  let continuation (shift : Nat) : UInt8 := .ofNat (0x80 + (n >>> (6 * shift)) % 64)
  if n < 0x80 then [.ofNat n]
  else if n < 0x800 then [.ofNat (0xC0 + n >>> 6), continuation 0]
  else if n < 0x10000 then [.ofNat (0xE0 + n >>> 12), continuation 1, continuation 0]
  else [.ofNat (0xF0 + n >>> 18), continuation 2, continuation 1, continuation 0]

/-- The UTF-8 bytes of a text. -/
def encode (text : Text) : Bytes := text.flatMap encodeCodePoint

end SourceMaps.Utf8
