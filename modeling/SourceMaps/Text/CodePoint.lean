/-!
# Code points and texts

A text is a list of Unicode code points. An escape in a JSON string can name a lone surrogate,
which is no `Char`, so texts that come from JSON need a type of their own; positions and lengths
in a text count code points.

## Main definitions

* `CodePoint`: a number below `0x110000`, surrogates included.
* `Text`: a list of code points; characters and strings coerce to it.
* `Text.toString`: the string with the same characters, for texts that hold no surrogate.
-/

namespace SourceMaps

/-- A Unicode code point: a scalar value or a surrogate. -/
structure CodePoint where
  /-- The number of the code point. -/
  toNat : Nat
  /-- Unicode ends at `0x10FFFF`. -/
  isLt : toNat < 0x110000
deriving DecidableEq

namespace CodePoint

/-- The code point of a character. -/
def ofChar (c : Char) : CodePoint :=
  ⟨c.toNat, by
    have h := c.valid
    simp only [UInt32.isValidChar, Nat.isValidChar] at h
    simp only [Char.toNat]
    omega⟩

instance : Coe Char CodePoint := ⟨ofChar⟩

/-- U+FFFD, which stands for what cannot be represented. -/
def replacement : CodePoint := ⟨0xFFFD, by decide⟩

instance : Inhabited CodePoint := ⟨replacement⟩

/-- The code point with the given number, or the replacement character past the end of Unicode. -/
def ofNat (n : Nat) : CodePoint :=
  if h : n < 0x110000 then ⟨n, h⟩ else replacement

/-- Surrogates are the halves of UTF-16 pairs. -/
def isSurrogate (c : CodePoint) : Bool := 0xD800 ≤ c.toNat && c.toNat ≤ 0xDFFF

/-- The character of a scalar value; a surrogate has none and becomes U+FFFD. -/
def toChar (c : CodePoint) : Char :=
  if c.isSurrogate then replacement.toNat |> Char.ofNat else Char.ofNat c.toNat

end CodePoint

/-- A text is a list of code points. -/
abbrev Text := List CodePoint

namespace Text

/-- The code points of a string. -/
def ofString (s : String) : Text := s.toList.map CodePoint.ofChar

instance : Coe String Text := ⟨ofString⟩

/-- The string with the characters of a text. -/
def toString (t : Text) : String := String.ofList (t.map CodePoint.toChar)

/-- The pieces joined with a separator between them. -/
def join (separator : Text) (pieces : List Text) : Text := separator.intercalate pieces

/-- What precedes and what follows the first occurrence of `pattern`. -/
def cutAt? (pattern : Text) : Text → Option (Text × Text)
  | [] => if pattern.isEmpty then some ([], []) else none
  | c :: rest =>
    if pattern.isPrefixOf (c :: rest) then some ([], (c :: rest).drop pattern.length)
    else (cutAt? pattern rest).map fun (before, after) => (c :: before, after)

/-- Does `pattern` occur in the text? -/
def holds (text pattern : Text) : Bool := (cutAt? pattern text).isSome

/-- The text without the code points at its end that satisfy `p`. -/
def dropEndWhile (p : CodePoint → Bool) (text : Text) : Text :=
  (text.reverse.dropWhile p).reverse

end Text

end SourceMaps
