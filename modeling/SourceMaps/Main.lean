import SourceMaps.CommandLine.Run
import SourceMaps.Zstd.Frame

/-!
# The program

Runs the command line on the files of the machine, with frames of blobs in the Zstandard format.
-/

open SourceMaps SourceMaps.CommandLine

/-- The number and the words of an error of the machine. -/
def fileErrorOf : IO.Error → FileError
  | .noFileOrDirectory _ code details => ⟨code.toNat, details, true⟩
  | .inappropriateType file code details => ⟨code.toNat, details, file.isSome⟩
  | .permissionDenied file code details => ⟨code.toNat, details, file.isSome⟩
  | .resourceExhausted file code details => ⟨code.toNat, details, file.isSome⟩
  | .invalidArgument file code details => ⟨code.toNat, details, file.isSome⟩
  | .otherError code details => ⟨code.toNat, details, true⟩
  | e => ⟨5, Text.ofString (toString e), true⟩

/-- The result of an action, or its error. -/
def attempt {α : Type} (action : IO α) : IO (Except FileError α) := do
  try
    return .ok (← action)
  catch e =>
    return .error (fileErrorOf e)

/-- The files of the machine. -/
def machineFiles : FileAccess IO where
  read path := attempt (return (← IO.FS.readBinFile path.toText.toString).toList)
  write path contents :=
    attempt (IO.FS.writeBinFile path.toText.toString ⟨contents.toArray⟩)

/-- Runs the program. -/
def main (arguments : List String) : IO UInt32 := do
  match ← run Zstd.decompress? machineFiles (arguments.map Text.ofString) with
  | .finished status output errors =>
    IO.print output.toString
    IO.eprint errors.toString
    return .ofNat status
  | .broken cause =>
    IO.eprintln cause.message.toString
    return 1
  | .escaped _ message =>
    IO.eprintln message.toString
    return 1
  | .unhandled command =>
    IO.eprintln ("unhandled command " ++ command.quoted.toString)
    return 1
