import SourceMaps.Json.Value
import SourceMaps.Text.Numeral
import SourceMaps.Text.WideUnits

/-!
# Reading JSON

The reader follows the text from left to right and stops at the first flaw. Its functions answer
what they read together with the text that is left; a flaw carries the text that stands where it
was found, from which `Place.before` counts lines and columns.

Beside the standard grammar the words `NaN`, `Infinity` and `-Infinity` are numbers, a repeated
field name keeps its last value, and an escaped surrogate without a partner stands for itself.

## Main definitions

* `Json.Flaw`, `Json.ReadError`: what can be wrong with a text.
* `Json.readValue`: a value and the text that is left.
* `Json.parse`: the value of a whole text.
* `Json.parseText`: likewise, refusing a text that starts with a byte order mark.
-/

namespace SourceMaps

/-- A place in a text: line and column count from one, the offset from zero. -/
structure Place where
  line : Nat
  column : Nat
  offset : Nat
deriving DecidableEq

/-- The place where `rest`, the end of `text`, begins. -/
def Place.before (text rest : Text) : Place :=
  let passed := text.take (text.length - rest.length)
  { line := passed.count ↑ '\n' + 1
    column := (passed.reverse.takeWhile (· ≠ ↑ '\n')).length + 1
    offset := passed.length }

namespace Json

/-- The flaws of a text that is no JSON. -/
inductive Flaw where
  | expectingValue
  | expectingName
  | expectingColon
  | expectingComma
  | extraData
  | unterminatedString
  | controlCharacter
  | badEscape
  | badUnitEscape
  | byteOrderMark
deriving DecidableEq

/-- A flaw in words. -/
def Flaw.message : Flaw → Text
  | .expectingValue => "Expecting value"
  | .expectingName => "Expecting property name enclosed in double quotes"
  | .expectingColon => "Expecting ':' delimiter"
  | .expectingComma => "Expecting ',' delimiter"
  | .extraData => "Extra data"
  | .unterminatedString => "Unterminated string starting at"
  | .controlCharacter => "Invalid control character at"
  | .badEscape => "Invalid \\escape"
  | .badUnitEscape => "Invalid \\uXXXX escape"
  | .byteOrderMark => "Unexpected UTF-8 BOM (decode using utf-8-sig)"

/-- Why a text is not read. -/
inductive ReadError where
  /-- The text has a flaw where `rest` begins. -/
  | flawed (flaw : Flaw) (rest : Text)
  /-- An integer has more digits than are read. -/
  | tooManyDigits (count : Nat)
deriving DecidableEq

/-- The most digits an integer may have. -/
def digitLimit : Nat := 4300

/-- The blanks between tokens. -/
def isBlank (c : CodePoint) : Bool := c = ' ' || c = '\t' || c = '\n' || c = '\r'

/-- The text after the blanks at its start. -/
def skipBlanks (text : Text) : Text := text.dropWhile isBlank

/-- The words that are values. -/
def words : List (Text × Json) :=
  [("null", .null), ("true", .bool true), ("false", .bool false), ("NaN", .double .nan),
    ("Infinity", .double (.infinite false)), ("-Infinity", .double (.infinite true))]

/-- A word at the start of the text. -/
def readWord? (text : Text) : Option (Json × Text) :=
  words.findSome? fun (word, value) =>
    if word.isPrefixOf text then some (value, text.drop word.length) else none

/-! ### Numbers -/

/-- Is the code point an ASCII digit? -/
def isDigit (c : CodePoint) : Bool := (Numeral.digit? c).isSome

/-- The values of the digits at the start of a text, and the text after them. -/
def readDigits (text : Text) : List Nat × Text :=
  ((text.takeWhile isDigit).filterMap Numeral.digit?, text.dropWhile isDigit)

/-- The digits before the point: a zero on its own, or digits that start with another one. -/
def readWhole (text : Text) : List Nat × Text :=
  match text with
  | c :: rest => if c = '0' then ([0], rest) else readDigits text
  | [] => ([], [])

/-- The digits after a point; without any the point does not belong to the number. -/
def readFraction (text : Text) : List Nat × Text :=
  match text with
  | c :: rest =>
    if c = '.' then
      match readDigits rest with
      | ([], _) => ([], text)
      | found => found
    else ([], text)
  | [] => ([], [])

/-- A sign at the start of a text: is it a minus? -/
def readSign (text : Text) : Bool × Text :=
  match text with
  | c :: rest => if c = '-' then (true, rest) else if c = '+' then (false, rest) else (false, text)
  | [] => (false, [])

/-- The exponent after its mark; without digits the mark does not belong to the number. -/
def readExponent (text : Text) : Option Int × Text :=
  match text with
  | c :: rest =>
    if c = 'e' ∨ c = 'E' then
      let (negative, rest) := readSign rest
      match readDigits rest with
      | ([], _) => (none, text)
      | (digits, rest) =>
        let size : Int := Numeral.value digits
        (some (if negative then -size else size), rest)
    else (none, text)
  | [] => (none, [])

/-- A number. Without fraction and exponent it is an integer, otherwise binary64. -/
def readNumber (text : Text) : Except ReadError (Json × Text) :=
  let (negative, unsigned) :=
    match text with
    | c :: rest => if c = '-' then (true, rest) else (false, text)
    | [] => (false, [])
  match readWhole unsigned with
  | ([], _) => .error (.flawed .expectingValue text)
  | (whole, rest) =>
    let (fraction, rest) := readFraction rest
    let (exponent, rest) := readExponent rest
    if fraction.isEmpty ∧ exponent.isNone then
      if digitLimit < whole.length then .error (.tooManyDigits whole.length)
      else
        let size : Int := Numeral.value whole
        .ok (.int (if negative then -size else size), rest)
    else
      let digits := Numeral.value (whole ++ fraction)
      .ok (.double (.ofDecimal negative digits (exponent.getD 0 - fraction.length)), rest)

/-! ### Strings -/

/-- A piece of a string: a code point as it stands, or an escaped UTF-16 unit. -/
inductive Piece where
  | plain (c : CodePoint)
  | unit (value : Nat)
deriving DecidableEq

/-- The code point of a piece on its own. -/
def Piece.alone : Piece → CodePoint
  | .plain c => c
  | .unit value => .ofNat value

/-- The code point of two escaped units that form a pair of surrogates. -/
def Piece.joined? : Piece → Piece → Option CodePoint
  | .unit high, .unit low => Utf16.pair? high low
  | _, _ => none

/-- The text of pieces, with pairs of surrogates joined. -/
def assemble : List Piece → Text
  | [] => []
  | [piece] => [piece.alone]
  | piece :: next :: rest =>
    match piece.joined? next with
    | some c => c :: assemble rest
    | none => piece.alone :: assemble (next :: rest)

/-- The code point of a short escape. -/
def shortEscape? (c : CodePoint) : Option CodePoint :=
  if c = '"' ∨ c = '\\' ∨ c = '/' then some c
  else if c = 'b' then some (.ofNat 0x08)
  else if c = 'f' then some (.ofNat 0x0C)
  else if c = 'n' then some '\n'
  else if c = 'r' then some '\r'
  else if c = 't' then some '\t'
  else none

/-- The unit that four hexadecimal digits spell. -/
def unit? (a b c d : CodePoint) : Option Nat := do
  let a ← Numeral.hexDigit? a
  let b ← Numeral.hexDigit? b
  let c ← Numeral.hexDigit? c
  let d ← Numeral.hexDigit? d
  return ((a * 16 + b) * 16 + c) * 16 + d

/-- A piece before the pieces that were read. -/
def push (piece : Piece) : Except ReadError (List Piece × Text) →
    Except ReadError (List Piece × Text)
  | .ok (pieces, rest) => .ok (piece :: pieces, rest)
  | .error e => .error e

/-- The pieces of a string up to its closing quote; `opening` is the text from its opening quote.
The four digits of an escaped unit may not be the last code points of the text. -/
def readPieces (opening : Text) : Text → Except ReadError (List Piece × Text)
  | [] => .error (.flawed .unterminatedString opening)
  | c :: rest =>
    if c = '"' then .ok ([], rest)
    else if c = '\\' then
      match rest with
      | [] => .error (.flawed .unterminatedString opening)
      | e :: tail =>
        if e = 'u' then
          match tail with
          | h₁ :: h₂ :: h₃ :: h₄ :: next :: rest' =>
            match unit? h₁ h₂ h₃ h₄ with
            | some unit => push (.unit unit) (readPieces opening (next :: rest'))
            | none => .error (.flawed .badUnitEscape rest)
          | _ => .error (.flawed .badUnitEscape rest)
        else
          match shortEscape? e with
          | some short => push (.plain short) (readPieces opening tail)
          | none => .error (.flawed .badEscape (c :: rest))
    else if c.toNat < 0x20 then .error (.flawed .controlCharacter (c :: rest))
    else push (.plain c) (readPieces opening rest)

/-- A string, from the text after its opening quote. -/
def readString (opening rest : Text) : Except ReadError (Text × Text) := do
  let (pieces, rest) ← readPieces opening rest
  return (assemble pieces, rest)

/-! ### Values -/

mutual

/-- A value. Every bracket and every item takes from the fuel, of which twice the length of the
text is enough. -/
def readValue : (fuel : Nat) → Text → Except ReadError (Json × Text)
  | 0, input => .error (.flawed .expectingValue input)
  | _ + 1, [] => .error (.flawed .expectingValue [])
  | fuel + 1, c :: rest =>
    if c = '"' then do
      let (content, rest) ← readString (c :: rest) rest
      return (.text content, rest)
    else if c = '{' then
      match skipBlanks rest with
      | d :: rest' =>
        if d = '}' then .ok (.object [], rest')
        else do
          let (pairs, rest) ← readMembers fuel (d :: rest')
          return (ofPairs pairs, rest)
      | [] => .error (.flawed .expectingName [])
    else if c = '[' then
      match skipBlanks rest with
      | d :: rest' =>
        if d = ']' then .ok (.list [], rest')
        else do
          let (items, rest) ← readItems fuel (d :: rest')
          return (.list items, rest)
      | [] => .error (.flawed .expectingValue [])
    else
      match readWord? (c :: rest) with
      | some found => .ok found
      | none => readNumber (c :: rest)

/-- The items of a list that has some, up to its closing bracket. -/
def readItems : (fuel : Nat) → Text → Except ReadError (List Json × Text)
  | 0, input => .error (.flawed .expectingValue input)
  | fuel + 1, input => do
    let (item, rest) ← readValue fuel input
    match skipBlanks rest with
    | c :: rest =>
      if c = ']' then return ([item], rest)
      else if c = ',' then do
        let (items, rest) ← readItems fuel (skipBlanks rest)
        return (item :: items, rest)
      else .error (.flawed .expectingComma (c :: rest))
    | [] => .error (.flawed .expectingComma [])

/-- The fields of an object that has some, up to its closing bracket. -/
def readMembers : (fuel : Nat) → Text → Except ReadError (List (Text × Json) × Text)
  | 0, input => .error (.flawed .expectingName input)
  | _ + 1, [] => .error (.flawed .expectingName [])
  | fuel + 1, quote :: rest => do
    if quote ≠ '"' then
      throw (.flawed .expectingName (quote :: rest))
    let (name, rest) ← readString (quote :: rest) rest
    match skipBlanks rest with
    | [] => .error (.flawed .expectingColon [])
    | colon :: rest =>
      if colon ≠ ':' then
        throw (.flawed .expectingColon (colon :: rest))
      let (value, rest) ← readValue fuel (skipBlanks rest)
      match skipBlanks rest with
      | c :: rest =>
        if c = '}' then return ([(name, value)], rest)
        else if c = ',' then do
          let (pairs, rest) ← readMembers fuel (skipBlanks rest)
          return ((name, value) :: pairs, rest)
        else .error (.flawed .expectingComma (c :: rest))
      | [] => .error (.flawed .expectingComma [])

end

/-- The value that a text spells, blanks around it aside. -/
def parse (text : Text) : Except ReadError Json := do
  let (value, rest) ← readValue (2 * text.length + 2) (skipBlanks text)
  match skipBlanks rest with
  | [] => return value
  | rest => throw (.flawed .extraData rest)

/-- The byte order mark. -/
def byteOrderMark : CodePoint := ⟨0xFEFF, by decide⟩

/-- The value of a text that arrives as such: a byte order mark is out of place in it. -/
def parseText (text : Text) : Except ReadError Json :=
  if text.head? = some byteOrderMark then .error (.flawed .byteOrderMark text) else parse text

end Json

end SourceMaps
