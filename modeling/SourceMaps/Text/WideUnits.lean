import SourceMaps.Text.Encoding

/-!
# UTF-16 and UTF-32

Encodings in units of two or four bytes, in either byte order. Surrogates that do not form a pair
are let through as code points.

## Main definitions

* `Utf16.pair?`: the code point of a pair of surrogates.
* `Utf16.assemble`: the text of UTF-16 units.
* `Utf16.decode`, `Utf32.decode`: the text of bytes.
-/

namespace SourceMaps

/-- The number that bytes spell in a byte order. -/
def Bytes.number (bigEndian : Bool) (bytes : Bytes) : Nat :=
  (if bigEndian then bytes else bytes.reverse).foldl (fun n byte => 256 * n + byte.toNat) 0

namespace Utf16

/-- The code point of a high and a low surrogate. -/
def pair? (high low : Nat) : Option CodePoint :=
  if 0xD800 ≤ high ∧ high < 0xDC00 ∧ 0xDC00 ≤ low ∧ low < 0xE000 then
    some (.ofNat (0x10000 + (high - 0xD800) * 0x400 + (low - 0xDC00)))
  else none

/-- The text of UTF-16 units: pairs of surrogates are joined, other units stand for themselves. -/
def assemble : List Nat → Text
  | [] => []
  | [unit] => [.ofNat unit]
  | unit :: next :: rest =>
    match pair? unit next with
    | some c => c :: assemble rest
    | none => .ofNat unit :: assemble (next :: rest)

/-- The units of bytes, and the byte that is left over. -/
def units (bigEndian : Bool) : Bytes → List Nat × Bytes
  | a :: b :: rest =>
    let (tail, left) := units bigEndian rest
    (Bytes.number bigEndian [a, b] :: tail, left)
  | left => ([], left)

/-- The text of UTF-16 bytes, the first of which stands at `position`. -/
def decode (bigEndian : Bool) (position : Nat) (bytes : Bytes) : Except Undecodable Text :=
  match units bigEndian bytes with
  | (units, []) => .ok (assemble units)
  | (units, left) => .error ⟨.utf16 bigEndian, left, position + 2 * units.length, .partialUnit⟩

end Utf16

namespace Utf32

/-- The text of UTF-32 bytes, the first of which stands at `position`. -/
def decode (bigEndian : Bool) (position : Nat) : Bytes → Except Undecodable Text
  | a :: b :: c :: d :: rest =>
    let unit := Bytes.number bigEndian [a, b, c, d]
    if unit < 0x110000 then (CodePoint.ofNat unit :: ·) <$> decode bigEndian (position + 4) rest
    else .error ⟨.utf32 bigEndian, [a, b, c, d], position, .beyondUnicode⟩
  | [] => .ok []
  | left => .error ⟨.utf32 bigEndian, left, position, .partialUnit⟩

end Utf32

end SourceMaps
