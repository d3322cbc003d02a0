import SourceMaps.CommandLine.Arguments

/-!
# Commands

The commands and their arguments.

## Main definitions

* `Command`, `Invocation`: what the command line asks for.
* `mainGrammar`, `commandGrammars`: the arguments of the program and of its commands.
* `Invocation.ofArguments`: reads the arguments of the program.
-/

namespace SourceMaps.CommandLine

/-- The value of a positional; it is absent where separators were all that was given for it. -/
abbrev Given (α : Type) := Option α

/-- Where and how a map is written. -/
structure OutputChoice where
  /-- The file it is written to; without one it is printed. -/
  file : Option Text
  /-- Is the JSON laid out over several lines? -/
  pretty : Bool
deriving DecidableEq

/-- What is asked for. -/
inductive Command where
  /-- List the mappings by generated or by original position. -/
  | decode (map : Given Text) (reverse : Bool)
  /-- Decode a map and write it anew. -/
  | encode (map : Given Text) (output : OutputChoice)
  /-- Compose two maps. -/
  | merge (first second : Given Text) (intermediate : Option Text) (output : OutputChoice)
  /-- List the mappings of the inverted reverse index. -/
  | invert (map : Given Text)
  /-- Show the origins of a generated position. -/
  | lookup (map : Given Text) (line column : Given Int)
deriving DecidableEq

/-- A command with the options of the program. -/
structure Invocation where
  /-- Are details reported? -/
  verbose : Bool
  /-- Are the inputs binary blobs? -/
  serialized : Bool
  /-- The command. -/
  command : Command
deriving DecidableEq

/-! ### Grammars -/

/-- The name of the program. -/
def programName : Text := "srcmap"

/-- Asks for help. -/
def helpOption : OptionRule := ⟨["-h", "--help"], .help⟩

/-- An option that is there or not. -/
def flagOption (names : List Text) : OptionRule := ⟨names, .flag⟩

/-- The options on output. -/
def outputOptions : List OptionRule := [⟨["-o", "--output"], .value⟩, flagOption ["--pretty"]]

/-- A positional that is a text. -/
def textPositional (name : Text) : PositionalRule := ⟨name, .text⟩

/-- The arguments of the program. -/
def mainGrammar : Grammar where
  program := programName
  options := [helpOption, flagOption ["-v", "--verbose"], flagOption ["--serialized"]]
  positionals := [⟨"command", .command⟩]

/-- The arguments of a command. -/
def commandGrammar (name : Text) (options : List OptionRule) (positionals : List PositionalRule) :
    Text × Grammar :=
  (name, ⟨programName ++ " " ++ name, helpOption :: options, positionals⟩)

/-- The arguments of all commands. -/
def commandGrammars : List (Text × Grammar) :=
  [commandGrammar "decode" [flagOption ["--reverse"]] [textPositional "map"],
    commandGrammar "encode" outputOptions [textPositional "map"],
    commandGrammar "merge" (⟨["--intermediate"], .value⟩ :: outputOptions)
      [textPositional "first", textPositional "second"],
    commandGrammar "invert" [] [textPositional "map"],
    commandGrammar "lookup" []
      [textPositional "map", ⟨"line", .integer⟩, ⟨"column", .integer⟩]]

/-! ### Reading -/

namespace Arguments

/-- Is an option there? -/
def has (a : Arguments) (name : Text) : Bool := (a.bound.lookup name).isSome

/-- The value of an option, if the option is there. -/
def value? (a : Arguments) (name : Text) : Option Text :=
  match a.bound.lookup name with
  | some (.value text) => some text
  | _ => none

/-- The text of a positional. -/
def text (a : Arguments) (name : Text) : Given Text :=
  match a.bound.lookup name with
  | some (.text value) => value
  | _ => none

/-- The integer of a positional. -/
def integer (a : Arguments) (name : Text) : Given Int :=
  match a.bound.lookup name with
  | some (.integer value) => value
  | _ => none

/-- The command with the arguments after it. -/
def command? (a : Arguments) : Option (Text × List Text) :=
  match a.bound.lookup ("command" : Text) with
  | some (.command (name :: rest)) => some (name, rest)
  | _ => none

/-- The options on output. -/
def output (a : Arguments) : OutputChoice := ⟨a.value? "--output", a.has "--pretty"⟩

end Arguments

/-- The command of a name with its arguments. -/
def Command.ofArguments? (name : Text) (a : Arguments) : Option Command :=
  if name = "decode" then some (.decode (a.text "map") (a.has "--reverse"))
  else if name = "encode" then some (.encode (a.text "map") a.output)
  else if name = "merge" then
    some (.merge (a.text "first") (a.text "second") (a.value? "--intermediate") a.output)
  else if name = "invert" then some (.invert (a.text "map"))
  else if name = "lookup" then
    some (.lookup (a.text "map") (a.integer "line") (a.integer "column"))
  else none

/-- What the arguments of the program ask for. What is left over of the program's arguments and of
the command's is reported together. -/
def Invocation.ofArguments (texts : List Text) : Except Stop Invocation := do
  let outer ← mainGrammar.read texts
  let misuse {α : Type} (cause : Misuse) : Except Stop α := throw (.misuse programName cause)
  let some (name, rest) := outer.command?
    | misuse (.missing ["command"])
  let some grammar := commandGrammars.lookup name
    | misuse (.notAmong "command" name (commandGrammars.map (·.1)))
  let inner ← grammar.read rest
  let leftOver := outer.leftOver ++ inner.leftOver
  if leftOver ≠ [] then
    misuse (.leftOver leftOver)
  match Command.ofArguments? name inner with
  | some command =>
    return ⟨outer.has "--verbose", outer.has "--serialized", command⟩
  | none => throw (.unhandled name)

end SourceMaps.CommandLine
