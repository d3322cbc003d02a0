import SourceMaps.Text.Utf8
import SourceMaps.Text.WideUnits

/-!
# The encoding of JSON bytes

JSON that arrives as bytes is in UTF-8, UTF-16 or UTF-32. A byte order mark settles which;
otherwise the zero bytes among the first four do, since JSON text starts with ASCII.

## Main definitions

* `Json.encodingOf`: the encoding of bytes and the length of their byte order mark.
* `Json.decodeBytes`: the text of bytes.
-/

namespace SourceMaps.Json

/-- The encoding that a byte order mark tells, with the length of the mark. -/
def markedEncoding? (bytes : Bytes) : Option (Encoding × Nat) :=
  [([0x00, 0x00, 0xFE, 0xFF], Encoding.utf32 true, 4),
    ([0xFF, 0xFE, 0x00, 0x00], Encoding.utf32 false, 4),
    ([0xFE, 0xFF], Encoding.utf16 true, 2),
    ([0xFF, 0xFE], Encoding.utf16 false, 2),
    ([0xEF, 0xBB, 0xBF], Encoding.utf8, 3)].findSome? fun (mark, encoding, length) =>
      if (mark : Bytes).isPrefixOf bytes then some (encoding, length) else none

/-- The encoding that the zeros among the first bytes tell. -/
def unmarkedEncoding : Bytes → Encoding
  | a :: b :: c :: d :: _ =>
    if a = 0 then (if b = 0 then .utf32 true else .utf16 true)
    else if b = 0 then (if c = 0 ∧ d = 0 then .utf32 false else .utf16 false)
    else .utf8
  | [a, b] => if a = 0 then .utf16 true else if b = 0 then .utf16 false else .utf8
  | _ => .utf8

/-- The encoding of bytes and the length of their byte order mark. -/
def encodingOf (bytes : Bytes) : Encoding × Nat :=
  (markedEncoding? bytes).getD (unmarkedEncoding bytes, 0)

/-- The text of JSON bytes. Positions count the byte order mark, except that of UTF-8. -/
def decodeBytes (bytes : Bytes) : Except Undecodable Text :=
  let (encoding, mark) := encodingOf bytes
  let body := bytes.drop mark
  match encoding with
  | .utf16 bigEndian => Utf16.decode bigEndian mark body
  | .utf32 bigEndian => Utf32.decode bigEndian mark body
  | .utf8 | .ascii => Utf8.decode body

end SourceMaps.Json
