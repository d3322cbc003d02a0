import SourceMaps.Text.Numeral
import SourceMaps.Text.Printable

/-!
# Quoted texts

How messages show a text: between quotes, with what cannot be printed escaped. The quotes are
single unless the text holds a single quote and no double one.

## Main definitions

* `Text.quoteMark`: the quote that a text is shown with.
* `CodePoint.escaped`: one code point inside the quotes.
* `Text.quoted`: the text between its quotes.
-/

namespace SourceMaps

/-- The spelling of a code point between the quotes `mark`. -/
def CodePoint.escaped (c mark : CodePoint) : Text :=
  if c = mark ∨ c = '\\' then ['\\', c]
  else if c = '\n' then "\\n"
  else if c = '\r' then "\\r"
  else if c = '\t' then "\\t"
  else if c.isPrintable then [c]
  else if c.toNat < 0x100 then "\\x" ++ Numeral.hex 2 c.toNat
  else if c.toNat < 0x10000 then "\\u" ++ Numeral.hex 4 c.toNat
  else "\\U" ++ Numeral.hex 8 c.toNat

namespace Text

/-- Double quotes are used only for a text that holds a single quote and no double one. -/
def quoteMark (text : Text) : CodePoint :=
  if ↑ '\'' ∈ text ∧ ↑ '"' ∉ text then '"' else '\''

/-- A text between quotes, as messages show it. -/
def quoted (text : Text) : Text :=
  let mark := text.quoteMark
  mark :: text.flatMap (·.escaped mark) ++ [mark]

end Text

end SourceMaps
