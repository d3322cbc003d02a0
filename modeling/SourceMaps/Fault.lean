import SourceMaps.Blob.Layout
import SourceMaps.Json.Display
import SourceMaps.Json.Reader
import SourceMaps.Text.Encoding

/-!
# Faults

Everything that can go wrong when maps are read, combined and written, as causes. The words of a
fault are in one place, `Fault.message`; `Fault.kind` says what sort of fault it is, so that a
caller can tell malformed input from values that cannot be written and from missing keys.

## Main definitions

* `Fault`: the causes.
* `Fault.Kind`, `Fault.kind`: their sorts.
* `Fault.Kind.isReported`: the sorts that the command line reports.
* `Fault.message`: their words.
-/

namespace SourceMaps

/-- A cause of failure. -/
inductive Fault where
  /-- A VLQ text holds a character outside the base64 alphabet. -/
  | strayCharacter (character : CodePoint) (offset : Nat) (text : Text)
  /-- A VLQ text spells a number that does not fit in 32 bits. -/
  | wideNumber (text : Text)
  /-- A VLQ text ends within a number. -/
  | truncatedNumber (text : Text)
  /-- An integer does not fit in 32 bits and has no VLQ spelling. -/
  | unspeakable (value : Int)
  /-- A segment has a number of fields that no segment has. -/
  | arity (fields : List Int)
  /-- A line of a mappings text has nothing between two commas. -/
  | emptySegment (line : Nat)
  /-- A segment without an origin cannot be resolved. -/
  | noOrigin (line : Nat) (column : Int)
  /-- A segment refers to a source that the map does not have. -/
  | sourceOutOfRange (index : Int) (count : Nat)
  /-- A segment refers to a name that the map does not have. -/
  | nameOutOfRange (index : Int) (count : Nat)
  /-- The JSON value of a map is no object. -/
  | notAnObject
  /-- The map is of a version other than 3; null stands for a missing one. -/
  | version (found : Json)
  /-- The map is made of sections. -/
  | sections
  /-- A field of the map must be a string. -/
  | notText (field : Text)
  /-- A field of the map must be an integer. -/
  | notInteger (field : Text)
  /-- A field of the map must be a list. -/
  | notList (field : Text)
  /-- A field of the map lists something that is no string. -/
  | notTexts (field : Text) (found : Json)
  /-- The text of a map is no JSON. -/
  | notJson (flaw : Json.Flaw) (place : Place)
  /-- The text of a map spells an integer with too many digits. -/
  | tooManyDigits (count : Nat)
  /-- The bytes of a map are no text. -/
  | undecodable (cause : Undecodable)
  /-- A blob is shorter than its header. -/
  | blobTooShort (size : Nat)
  /-- There is no record at an offset of a blob. -/
  | unreadable (cause : Blob.LayoutError)
  /-- A blob declares no sources. -/
  | blobWithoutSources
  /-- A blob is shorter than its tables and mappings. -/
  | blobTruncated (needed size : Nat)
  /-- A pointer of a blob runs past its end. -/
  | pointerOutOfRange (offset length size : Nat)
  /-- The contents of a source in a blob are no frame that can be decompressed. -/
  | incompressible (source : Text)
  /-- The mappings of a blob are not ASCII. -/
  | mappingsNotAscii (cause : Undecodable)
  /-- The file between two maps is not given and cannot be told from the second one. -/
  | ambiguousIntermediate (count : Nat)
  /-- A source is not registered in an index, or nothing is filed under it. -/
  | unknownSource (source : Text)
  /-- Nothing is filed under a line or column. -/
  | unknownNumber (number : Int)
  /-- A negative generated line reaches back before the first line there is. -/
  | lineOutOfRange
deriving Inhabited

namespace Fault

/-- The sorts of faults. -/
inductive Kind where
  /-- The input is malformed. -/
  | format
  /-- A value is out of bounds for what is asked. -/
  | value
  /-- Bytes do not decode to text. -/
  | decoding
  /-- A key is missing. -/
  | key
  /-- A position is out of range. -/
  | position
  /-- A record is out of the data. -/
  | layout
deriving DecidableEq

/-- The sort of a fault. -/
def kind : Fault → Kind
  | .unspeakable _ | .tooManyDigits _ | .ambiguousIntermediate _ => .value
  | .undecodable _ => .decoding
  | .unknownSource _ | .unknownNumber _ => .key
  | .lineOutOfRange => .position
  | .unreadable _ => .layout
  | _ => .format

/-- Is the fault one of input or values, which is reported to whoever gave them? Missing keys and
positions and records out of range are not: they would be mistakes of the program. -/
def Kind.isReported : Kind → Bool
  | .format | .value | .decoding => true
  | .key | .position | .layout => false

/-- A number in words. -/
private def number (n : Nat) : Text := Numeral.ofNat n

/-- The words of a fault. -/
def message : Fault → Text
  | .strayCharacter c offset text =>
    "Invalid base64 VLQ character " ++ Text.quoted [c] ++ " at offset " ++ number offset ++
      " in " ++ text.quoted
  | .wideNumber text => "VLQ value out of 32-bit range in " ++ text.quoted
  | .truncatedNumber text => "Truncated VLQ continuation sequence in " ++ text.quoted
  | .unspeakable value => "VLQ value out of 32-bit range: " ++ Numeral.ofInt value
  | .arity fields =>
    "Unsupported segment arity " ++ number fields.length ++ ": " ++
      Text.bracketed (fields.map Numeral.ofInt)
  | .emptySegment line => "Empty segment on generated line " ++ number line
  | .noOrigin line column =>
    "Segment at " ++ number line ++ ":" ++ Numeral.ofInt column ++
      " has no source position and cannot be resolved"
  | .sourceOutOfRange index count =>
    "Source index " ++ Numeral.ofInt index ++ " out of range (sources has " ++ number count ++
      " entries)"
  | .nameOutOfRange index count =>
    "Name index " ++ Numeral.ofInt index ++ " out of range (names has " ++ number count ++
      " entries)"
  | .notAnObject => "Source map must be a JSON object"
  | .version found => "Unsupported source map version: " ++ found.display
  | .sections => "Indexed source maps (with 'sections') are not supported"
  | .notText field => "'" ++ field ++ "' must be a string"
  | .notInteger field => "'" ++ field ++ "' must be an integer"
  | .notList field => "'" ++ field ++ "' must be a list"
  | .notTexts field found =>
    "'" ++ field ++ "' must contain only strings, got " ++ found.display
  | .notJson flaw place =>
    "Source map is not valid JSON: " ++ flaw.message ++ ": line " ++ number place.line ++
      " column " ++ number place.column ++ " (char " ++ number place.offset ++ ")"
  | .tooManyDigits count =>
    "Exceeds the limit (" ++ number Json.digitLimit ++
      " digits) for integer string conversion: value has " ++ number count ++
      " digits; use sys.set_int_max_str_digits() to increase the limit"
  | .undecodable cause => cause.message
  | .blobTooShort size => "Serialized source map too short: " ++ number size ++ " bytes"
  | .unreadable cause => cause.message
  | .blobWithoutSources => "Serialized source map declares no source files"
  | .blobTruncated needed size =>
    "Serialized source map truncated: need " ++ number needed ++ " bytes, have " ++ number size
  | .pointerOutOfRange offset length size =>
    "String pointer " ++ number offset ++ "+" ++ number length ++ " runs past end of data (" ++
      number size ++ " bytes)"
  | .incompressible source => "Cannot decompress contents of " ++ source.quoted
  | .mappingsNotAscii cause => "Serialized mappings are not ASCII: " ++ cause.message
  | .ambiguousIntermediate count =>
    "Cannot infer the intermediate file: second map has " ++ number count ++
      " sources, pass intermediate= explicitly"
  | .unknownSource source => source.quoted
  | .unknownNumber number => Numeral.ofInt number
  | .lineOutOfRange => "list index out of range"

end Fault

end SourceMaps
