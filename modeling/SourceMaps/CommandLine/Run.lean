import SourceMaps.Blob
import SourceMaps.CommandLine.Command
import SourceMaps.CommandLine.Files
import SourceMaps.Compose
import SourceMaps.Decode
import SourceMaps.Encode

/-!
# Running commands

A command reads its maps, does its work and prints a listing or writes a map. Malformed input,
values out of bounds and errors of files are reported on the error output, with nothing printed;
other faults would end the run abruptly. How files are reached and how the frames of blobs are
decompressed is left open.

## Main definitions

* `Outcome`: how a run ends.
* `listForward`, `listReverse`, `listOrigins`: the listings.
* `runCommand`: runs a command.
* `run`: runs the program on its arguments.
-/

namespace SourceMaps.CommandLine

/-- An argument without a value where one is needed. -/
inductive Unusable where
  /-- It is to name a file. -/
  | path
  /-- It is to be looked up. -/
  | key
deriving DecidableEq

/-- The words for an unusable argument. -/
def Unusable.message : Unusable → Text
  | .path => "no file is named"
  | .key => "no position is given"

/-- How a run ends. -/
inductive Outcome where
  /-- With a status and what is printed. -/
  | finished (status : Nat) (output errors : Text)
  /-- Abruptly, because an argument has no value. -/
  | broken (cause : Unusable)
  /-- Abruptly, with a fault that is not reported. -/
  | escaped (kind : Fault.Kind) (message : Text)
  /-- Abruptly, because nothing handles the command. -/
  | unhandled (command : Text)
deriving DecidableEq

/-- The outcome with something reported before the errors. -/
def Outcome.noted (note : Text) : Outcome → Outcome
  | .finished status output errors => .finished status output (note ++ errors)
  | other => other

/-- Why a command fails. -/
inductive Trouble where
  | fault (fault : Fault)
  | file (error : FileError) (path : FilePath)
  | unusable (cause : Unusable)

/-- A line of output. -/
def line (text : Text) : Text := text ++ "\n"

/-- The outcome of a command that failed. -/
def Trouble.outcome : Trouble → Outcome
  | .fault cause =>
    if cause.kind.isReported then .finished 1 "" (line ("Error: " ++ cause.message))
    else .escaped cause.kind cause.message
  | .file error path => .finished 1 "" (line ("Error: " ++ error.message path))
  | .unusable cause => .broken cause

/-- The outcome of steps, some of which may have failed. -/
def settle : Except Trouble Outcome → Outcome
  | .ok outcome => outcome
  | .error trouble => trouble.outcome

/-- The outcome of a command that prints something and succeeds. -/
def success (output : Text) : Outcome := .finished 0 output ""

/-! ### Listings -/

/-- A name in a listing. -/
def listedName : Option Text → Text
  | some name => " (" ++ name ++ ")"
  | none => ""

/-- Parts of a position in a listing. -/
def listedPosition (source : Option Text) (line column : Int) : Text :=
  Text.join ":" (source.toList ++ [Numeral.ofInt line, Numeral.ofInt column])

/-- The mappings from generated to original positions. -/
def listForward (mappings : List Mapping) : Text :=
  mappings.flatMap fun m => line <|
    listedPosition none m.generatedLine m.generatedColumn ++ " -> " ++
      listedPosition m.source m.line m.column ++ listedName m.name

/-- The mappings from original to generated positions. -/
def listReverse (mappings : List Mapping) : Text :=
  mappings.flatMap fun m => line <|
    listedPosition m.source m.line m.column ++ " -> " ++
      listedPosition none m.generatedLine m.generatedColumn ++ listedName m.name

/-- Original positions. -/
def listOrigins (positions : List OriginalPosition) : Text :=
  positions.flatMap fun p => line (listedPosition p.source p.line p.column ++ listedName p.name)

/-! ### Commands -/

section Commands

variable {m : Type → Type} [Monad m] (decompress? : Bytes → Option Bytes)

/-- A step that can fail. -/
abbrev Step (m : Type → Type) := ExceptT Trouble m

/-- Fails with a fault. -/
def orTrouble {α : Type} : Except Fault α → Step m α
  | .ok a => pure a
  | .error fault => throw (.fault fault)

/-- The path that an argument names. -/
def pathOf : Given Text → Step m FilePath
  | some text => pure (.ofText text)
  | none => throw (.unusable .path)

/-- The map that bytes hold, as a blob or as JSON. -/
def mapOfBytes (serialized : Bool) (bytes : Bytes) : Except Fault SourceMap :=
  if serialized then Blob.loadWith decompress? bytes none else SourceMap.ofBytes bytes

/-- Reads a map. -/
def load (files : FileAccess m) (serialized : Bool) (name : Given Text) : Step m SourceMap := do
  let path ← pathOf name
  match ← (files.read path : m _) with
  | .error e => throw (.file e path)
  | .ok bytes => orTrouble (mapOfBytes decompress? serialized bytes)

/-- Prints a map or writes it to a file. -/
def emit (files : FileAccess m) (map : SourceMap) (output : OutputChoice) : Step m Outcome := do
  let text := line (map.render (if output.pretty then .indented else .compact))
  match output.file with
  | none => return success text
  | some name =>
    let path := FilePath.ofText name
    match ← (files.write path (Utf8.encode text) : m _) with
    | .error e => throw (.file e path)
    | .ok () => return success (line ("Wrote " ++ name))

/-- Looks a position up and lists its origins. -/
def lookUp (index : ForwardIndex) (lineNumber column : Given Int) : Step m Outcome := do
  let some lineNumber := lineNumber | throw (.unusable .key)
  let shown : Text := (column.map Numeral.ofInt).getD "[]"
  let origins ← match index.grid.find? lineNumber, column with
    | none, _ => pure []
    | some _, some column => pure (index.lookup lineNumber column)
    | some _, none => throw (.unusable .key)
  if origins.isEmpty then
    return .finished 1 "" (line ("No mapping for " ++ Numeral.ofInt lineNumber ++ ":" ++ shown))
  return success (listOrigins origins)

/-- The steps of a command. -/
def commandSteps (files : FileAccess m) (verbose serialized : Bool) : Command → Step m Outcome
  | .decode name reverse => do
    let map ← load decompress? files serialized name
    if reverse then
      return success (listReverse (← orTrouble (ReverseIndex.ofMap map)).mappings)
    else
      return success (listForward (← orTrouble (ForwardIndex.ofMap map)).mappings)
  | .invert name => do
    let index ← orTrouble (ReverseIndex.ofMap (← load decompress? files serialized name))
    return success (listForward index.invert.mappings)
  | .lookup name lineNumber column => do
    let index ← orTrouble (ForwardIndex.ofMap (← load decompress? files serialized name))
    lookUp index lineNumber column
  | .encode name output => do
    let map ← load decompress? files serialized name
    let index ← orTrouble (ForwardIndex.ofMap map)
    let options : EncodeOptions := {
      file := map.file
      sourcesContent := map.sourcesContent
      lines := map.lineCount
      verbatim := true }
    emit files (← orTrouble ((Index.forward index).encode options {})) output
  | .merge firstName secondName intermediate output => do
    let first ← load decompress? files serialized firstName
    let second ← load decompress? files serialized secondName
    let firstIndex ← orTrouble (ReverseIndex.ofMap first)
    let secondIndex ← orTrouble (ReverseIndex.ofMap second)
    let merged ← orTrouble (firstIndex.compose secondIndex intermediate)
    let note := line ("  merged " ++ Numeral.ofNat firstIndex.mappings.length ++
      " mappings into " ++ Numeral.ofNat merged.mappings.length)
    let options : EncodeOptions := {
      file := second.file
      sourcesContent := first.sourcesContent
      verbatim := true }
    let written : Step m Outcome := do
      emit files (← orTrouble ((Index.reverse merged).encode options {})) output
    let outcome ← (settle <$> written.run : m _)
    return if verbose then outcome.noted note else outcome

/-- Runs a command. -/
def runCommand (files : FileAccess m) (invocation : Invocation) : m Outcome :=
  settle <$> (commandSteps decompress? files invocation.verbose invocation.serialized
    invocation.command).run

/-- The summary that is printed when help is asked for. -/
def usage : Text :=
  line ("usage: " ++ programName ++ " [-h] [-v] [--serialized] \x7b" ++
    Text.join "," (commandGrammars.map (·.1)) ++ "\x7d ...")

/-- Runs the program on its arguments. -/
def run (files : FileAccess m) (arguments : List Text) : m Outcome :=
  match Invocation.ofArguments arguments with
  | .ok invocation => runCommand decompress? files invocation
  | .error .help => return success usage
  | .error (.unhandled command) => return .unhandled command
  | .error (.misuse program cause) =>
    return .finished 2 "" (line (program ++ ": error: " ++ cause.message))

end Commands

end SourceMaps.CommandLine
