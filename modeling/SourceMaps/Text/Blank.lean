import SourceMaps.Text.CodePoint

/-!
# White space and blanks

The white space of Unicode, and the blanks, to which the four information separators U+001C to
U+001F belong as well.

## Main definitions

* `CodePoint.isWhiteSpace`: Unicode's property of the name.
* `CodePoint.isBlank`, `Text.isBlank`: blanks, and texts of nothing else.
* `Text.strip`: a text without the white space at its ends.
-/

namespace SourceMaps

/-- Unicode's white space. -/
def CodePoint.isWhiteSpace (c : CodePoint) : Bool :=
  let n := c.toNat
  (0x9 ≤ n && n ≤ 0xD) || n == 0x20 || n == 0x85 || n == 0xA0 || n == 0x1680 ||
    (0x2000 ≤ n && n ≤ 0x200A) || n == 0x2028 || n == 0x2029 || n == 0x202F || n == 0x205F ||
    n == 0x3000

/-- White space and the information separators. -/
def CodePoint.isBlank (c : CodePoint) : Bool :=
  c.isWhiteSpace || (0x1C ≤ c.toNat && c.toNat ≤ 0x1F)

/-- A text that holds nothing but blanks. -/
def Text.isBlank (text : Text) : Bool := text.all CodePoint.isBlank

/-- The text without the white space at either end. -/
def Text.strip (text : Text) : Text :=
  Text.dropEndWhile CodePoint.isWhiteSpace (text.dropWhile CodePoint.isWhiteSpace)

end SourceMaps
