import SourceMaps.Text.Integer
import SourceMaps.Text.Quoted

/-!
# Grammars of command lines

What the arguments of a command are: options, which start with a dash and may stand anywhere, and
positionals in a fixed order. A long option may be abbreviated as long as one option fits, and may
carry its value after an equals sign; short options may be run together. After the separator `--`
everything is positional, and negative numbers always are.

## Main definitions

* `Grammar`, `OptionRule`, `PositionalRule`: the rules.
* `Misuse`: what can be wrong with arguments, with its `message`.
* `Token`, `Grammar.tokens`: arguments told apart by their form.
-/

namespace SourceMaps.CommandLine

/-- What an option does. -/
inductive OptionKind where
  /-- It is there or not. -/
  | flag
  /-- It asks for help, which ends the reading. -/
  | help
  /-- It has a value. -/
  | value
deriving DecidableEq

/-- An option. -/
structure OptionRule where
  /-- Its names, dashes included. -/
  names : List Text
  /-- What it does. -/
  kind : OptionKind
deriving DecidableEq

/-- What a positional is read as. -/
inductive PositionalKind where
  | text
  | integer
  /-- The name of a command together with all arguments after it. -/
  | command
deriving DecidableEq

/-- A positional. -/
structure PositionalRule where
  /-- Its name. -/
  name : Text
  /-- What it is read as. -/
  kind : PositionalKind
deriving DecidableEq

/-- The arguments of a command. -/
structure Grammar where
  /-- The command as messages name it. -/
  program : Text
  /-- The options in the order of their declaration. -/
  options : List OptionRule
  /-- The positionals in order. -/
  positionals : List PositionalRule

/-- An option as messages name it. -/
def OptionRule.label (rule : OptionRule) : Text := Text.join "/" rule.names

/-! ### Misuse -/

/-- What is wrong with the arguments of a command. -/
inductive Misuse where
  /-- An abbreviation fits several options. -/
  | ambiguous (given : Text) (candidates : List Text)
  /-- An option that has no value is given one. -/
  | unwantedValue (option : OptionRule) (value : Text)
  /-- An option is not given its value. -/
  | missingValue (option : OptionRule)
  /-- A positional is no integer. -/
  | notInteger (positional value : Text)
  /-- A positional is none of the words it may be. -/
  | notAmong (positional value : Text) (choices : List Text)
  /-- Positionals are missing. -/
  | missing (positionals : List Text)
  /-- Arguments are left over. -/
  | leftOver (arguments : List Text)
deriving DecidableEq

/-- The words of a misuse. -/
def Misuse.message : Misuse → Text
  | .ambiguous given candidates =>
    "ambiguous option: " ++ given ++ " could match " ++ Text.join ", " candidates
  | .unwantedValue option value =>
    "argument " ++ option.label ++ ": ignored explicit argument " ++ value.quoted
  | .missingValue option => "argument " ++ option.label ++ ": expected one argument"
  | .notInteger positional value =>
    "argument " ++ positional ++ ": invalid int value: " ++ value.quoted
  | .notAmong positional value choices =>
    "argument " ++ positional ++ ": invalid choice: " ++ value.quoted ++ " (choose from " ++
      Text.join ", " (choices.map Text.quoted) ++ ")"
  | .missing positionals =>
    "the following arguments are required: " ++ Text.join ", " positionals
  | .leftOver arguments => "unrecognized arguments: " ++ Text.join " " arguments

/-! ### Tokens -/

/-- A text attached to the name of an option. -/
structure Attachment where
  /-- Does an equals sign stand between them? -/
  marked : Bool
  /-- The text. -/
  text : Text
deriving DecidableEq

/-- How an option is used. -/
structure OptionUse where
  /-- The option, if the grammar has it. -/
  rule : Option OptionRule
  /-- The name that it is used by. -/
  name : Text
  /-- What is attached to the name. -/
  attached : Option Attachment
deriving DecidableEq

/-- An argument told apart by its form. -/
inductive Token where
  | argument (text : Text)
  | separator
  | option (text : Text) (use : OptionUse)
deriving DecidableEq

/-- The separator of options and positionals. -/
def separatorText : Text := "--"

/-- A token as it was given. -/
def Token.text : Token → Text
  | .argument text => text
  | .separator => separatorText
  | .option text _ => text

/-- Is the token an option? -/
def Token.isOption : Token → Bool
  | .option .. => true
  | _ => false

/-- Is the token the separator? -/
def Token.isSeparator : Token → Bool
  | .separator => true
  | _ => false

/-- Are all code points, except for a line break at the end, decimal digits, of which there is at
least one? -/
def isDigitRun (text : Text) : Bool :=
  let body := if text.getLast? = some ↑ '\n' then text.dropLast else text
  !body.isEmpty && body.all fun c => c.decimalDigit?.isSome

/-- Is the text a negative number: a minus sign and digits, perhaps with a point before the last of
them? -/
def isNegativeNumber (text : Text) : Bool :=
  match text with
  | [] => false
  | sign :: rest =>
    let fraction := rest.dropWhile fun c => c.decimalDigit?.isSome
    sign = '-' && (isDigitRun rest ||
      (fraction.head? = some ↑ '.' && isDigitRun (fraction.drop 1)))

/-- A text with the part before its first equals sign apart. -/
def splitValue (text : Text) : Text × Option Attachment :=
  match Text.cutAt? "=" text with
  | some (name, value) => (name, some ⟨true, value⟩)
  | none => (text, none)

namespace Grammar

/-- The options by their names, in the order of their declaration. -/
def named (g : Grammar) : List (Text × OptionRule) :=
  g.options.flatMap fun rule => rule.names.map (·, rule)

/-- The options that a text fits which is no name of an option: abbreviations of long options, and
short options with a value attached. -/
def candidates (g : Grammar) (text : Text) : List OptionUse :=
  if separatorText.isPrefixOf text then
    let (abbreviation, attached) := splitValue text
    (g.named.filter fun (name, _) => abbreviation.isPrefixOf name).map fun (name, rule) =>
      ⟨some rule, name, attached⟩
  else
    g.named.filterMap fun (name, rule) =>
      if name = text.take 2 then some ⟨some rule, name, some ⟨false, text.drop 2⟩⟩
      else if text.isPrefixOf name then some ⟨some rule, name, none⟩
      else none

/-- The use of an option whose name is given in full, perhaps with a value. -/
def exactUse? (g : Grammar) (text : Text) : Option OptionUse :=
  match g.named.lookup text with
  | some rule => some ⟨some rule, text, none⟩
  | none =>
    let (name, attached) := splitValue text
    match attached, g.named.lookup name with
    | some value, some rule => some ⟨some rule, name, some value⟩
    | _, _ => none

/-- An argument that stands before the separator. -/
def token (g : Grammar) (text : Text) : Except Misuse Token :=
  if text.head? ≠ some ↑ '-' ∨ text.length = 1 then .ok (.argument text)
  else
    match g.exactUse? text, g.candidates text with
    | some use, _ => .ok (.option text use)
    | none, [use] => .ok (.option text use)
    | none, [] =>
      if isNegativeNumber text ∨ ↑ ' ' ∈ text then .ok (.argument text)
      else .ok (.option text ⟨none, text, none⟩)
    | none, uses => .error (.ambiguous text (uses.map (·.name)))

/-- The arguments told apart by their form. -/
def tokens (g : Grammar) : List Text → Except Misuse (List Token)
  | [] => .ok []
  | text :: rest =>
    if text = separatorText then .ok (.separator :: rest.map .argument)
    else do
      let first ← g.token text
      return first :: (← g.tokens rest)

end Grammar

end SourceMaps.CommandLine
