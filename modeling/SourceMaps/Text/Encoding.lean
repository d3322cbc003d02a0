import SourceMaps.Text.Numeral

/-!
# Bytes and encodings

A text arrives as bytes in one of several encodings. What cannot be decoded is reported with the
bytes at fault and their position.

## Main definitions

* `Bytes`: a list of bytes.
* `Encoding`: the encodings, with their names.
* `Undecodable`: why bytes are no text, with its `message`.
-/

namespace SourceMaps

/-- A list of bytes. -/
abbrev Bytes := List UInt8

/-- The encodings of texts. -/
inductive Encoding where
  | ascii
  | utf8
  | utf16 (bigEndian : Bool)
  | utf32 (bigEndian : Bool)
deriving DecidableEq

/-- The name of an encoding in messages. -/
def Encoding.name : Encoding → Text
  | .ascii => "ascii"
  | .utf8 => "utf-8"
  | .utf16 bigEndian => if bigEndian then "utf-16-be" else "utf-16-le"
  | .utf32 bigEndian => if bigEndian then "utf-32-be" else "utf-32-le"

namespace Undecodable

/-- What is wrong with the bytes. -/
inductive Reason where
  /-- No code point starts with the byte. -/
  | startByte
  /-- The byte after these cannot continue them. -/
  | continuationByte
  /-- The bytes end within a code point. -/
  | endOfData
  /-- The bytes end within a unit. -/
  | partialUnit
  /-- The unit is no code point. -/
  | beyondUnicode
  /-- The byte is no ASCII character. -/
  | beyondAscii
deriving DecidableEq

/-- The reason in words. -/
def Reason.message : Reason → Text
  | .startByte => "invalid start byte"
  | .continuationByte => "invalid continuation byte"
  | .endOfData => "unexpected end of data"
  | .partialUnit => "truncated data"
  | .beyondUnicode => "code point not in range(0x110000)"
  | .beyondAscii => "ordinal not in range(128)"

end Undecodable

/-- Bytes that are no text in an encoding. -/
structure Undecodable where
  /-- The encoding they were read in. -/
  encoding : Encoding
  /-- The bytes at fault. -/
  bytes : Bytes
  /-- The position of the first of them. -/
  position : Nat
  /-- What is wrong with them. -/
  reason : Undecodable.Reason
deriving DecidableEq

/-- One byte is shown, several are given by their positions. -/
def Undecodable.message (u : Undecodable) : Text :=
  let what : Text :=
    match u.bytes with
    | [byte] => "byte 0x" ++ Numeral.hex 2 byte.toNat ++ " in position " ++ Numeral.ofNat u.position
    | bytes => "bytes in position " ++ Numeral.ofNat u.position ++ "-" ++
        Numeral.ofNat (u.position + bytes.length - 1)
  "'" ++ u.encoding.name ++ "' codec can't decode " ++ what ++ ": " ++ u.reason.message

/-- ASCII bytes as a text; `position` is that of the first byte. -/
def decodeAscii (position : Nat) : Bytes → Except Undecodable Text
  | [] => .ok []
  | byte :: rest =>
    if byte < 0x80 then (CodePoint.ofNat byte.toNat :: ·) <$> decodeAscii (position + 1) rest
    else .error ⟨.ascii, [byte], position, .beyondAscii⟩

end SourceMaps
