import SourceMaps.Text.Utf8

/-!
# Source paths

How the sources of a written map are named. A source is first put under an output location: by a
table of relocations, by its base name, or, if it is embedded in an archive, by its path within the
archive. It is then named relative to the directory of the map file, or by a file URI if it lies
outside of it.

## Main definitions

* `NormalPath`: a path without empty, `.` and (below a root) `..` components.
* `SourcePath.isArchived`, `SourcePath.baseName`: properties of a path as it stands.
* `Relocation`: where sources and the map file are put.
* `Relocation.place`: a source under the output location.
* `Relocation.relativize`: the name of a source in a map.
-/

namespace SourceMaps

/-- A normalised path. Two slashes at the start are a root of their own. -/
structure NormalPath where
  /-- The slashes at the start: none, one or two. -/
  root : Text
  /-- The components after the root. -/
  components : List Text
deriving DecidableEq

namespace NormalPath

/-- The slashes that a path starts with; three and more count as one. -/
def rootOf (path : Text) : Text :=
  match (path.takeWhile (· = ↑ '/')).length with
  | 0 => ""
  | 2 => "//"
  | _ => "/"

/-- One more component after normalised ones, which stand in reverse order. A component `..` takes
back the last one; it stays only at the start of a path without a root. -/
def push (rooted : Bool) (components : List Text) (component : Text) : List Text :=
  let up : Text := ".."
  if component = [] ∨ component = ↑ '.' :: [] then components
  else if component = up then
    match components with
    | [] => if rooted then [] else [up]
    | last :: before => if last = up then up :: components else before
  else component :: components

/-- The normal form of a path. -/
def ofText (path : Text) : NormalPath :=
  let root := rootOf path
  ⟨root, ((path.splitOn ↑ '/').foldl (push (!root.isEmpty)) []).reverse⟩

/-- The normal form of a path seen from a directory. -/
def resolve (directory path : Text) : NormalPath :=
  if path.head? = some ↑ '/' then ofText path
  else if directory = [] ∨ directory.getLast? = some ↑ '/' then ofText (directory ++ path)
  else ofText (directory ++ "/" ++ path)

/-- The path as a text. -/
def toText (path : NormalPath) : Text := path.root ++ Text.join "/" path.components

/-- The path without its last component. -/
def parent (path : NormalPath) : NormalPath :=
  { path with components := path.components.dropLast }

/-- The components that lead from a directory to a path within it. -/
def within? (path directory : NormalPath) : Option (List Text) :=
  if path.root = directory.root ∧ directory.components.isPrefixOf path.components then
    some (path.components.drop directory.components.length)
  else none

/-- Components as a relative path; without components it is the directory itself. -/
def relative (components : List Text) : Text :=
  if components.isEmpty then "." else Text.join "/" components

/-- The bytes that stand for themselves in a URI. -/
def isUriSafe (byte : UInt8) : Bool :=
  let c := Char.ofNat byte.toNat
  c.isAlphanum || c = '-' || c = '.' || c = '_' || c = '~' || c = '/'

/-- A byte in a URI: as it stands, or its hexadecimal digits in upper case after a percent sign. -/
def uriEscaped (byte : UInt8) : Text :=
  let digit (d : Nat) : CodePoint :=
    if d < 10 then .ofNat ('0'.toNat + d) else .ofNat ('A'.toNat + (d - 10))
  if isUriSafe byte then [.ofNat byte.toNat]
  else [↑ '%', digit (byte.toNat / 16), digit (byte.toNat % 16)]

/-- The file URI of a path without surrogates. In the name of a file a surrogate is either an
escaped byte, from U+DC80 to U+DCFF, or an error. Here it has three bytes as in other texts, so
paths that hold surrogates are not supposed to be asked for their URIs. -/
def toUri (path : NormalPath) : Text :=
  "file://" ++ (Utf8.encode path.toText).flatMap uriEscaped

end NormalPath

namespace SourcePath

/-- What separates an archive and a path within it. -/
def archiveSeparator : Text := ".jar!/"

/-- Is the path one within an archive? -/
def isArchived (path : Text) : Bool := path.holds archiveSeparator

/-- What follows the first mark of an archive, its slash included. -/
def insideArchive (path : Text) : Text :=
  match Text.cutAt? archiveSeparator.dropLast path with
  | some (_, inside) => inside
  | none => []

/-- What follows the last slash or backslash. -/
def baseName (path : Text) : Text :=
  (path.reverse.takeWhile fun c => c ≠ ↑ '/' ∧ c ≠ ↑ '\\').reverse

end SourcePath

/-- Where sources and the map file are put. Empty texts count as missing. -/
structure Relocation where
  /-- The directory under which sources are put. -/
  outputDirectory : Option Text := none
  /-- A location that takes the place of the directory and is kept as it is. -/
  publicPath : Option Text := none
  /-- Where the map file is going to be. -/
  mapFile : Option Text := none
  /-- Where single sources are put below the output location. -/
  table : List (Text × Text) := []

namespace Relocation

/-- A text that is there and not empty. -/
def given (text : Option Text) : Option Text := text.filter (!·.isEmpty)

/-- Is there an output location? -/
def isActive (r : Relocation) : Bool :=
  (given r.outputDirectory).isSome || (given r.publicPath).isSome

/-- The output location: the public path before the directory. -/
def base (r : Relocation) : Text := ((given r.publicPath).or (given r.outputDirectory)).getD ""

/-- A source under the output location. -/
def place (r : Relocation) (path : Text) : Text :=
  if SourcePath.isArchived path then r.base ++ SourcePath.insideArchive path
  else r.base ++ "/" ++ (given (r.table.lookup path)).getD (SourcePath.baseName path)

/-- The name of a source in a map that is read in the given working directory. -/
def relativize (r : Relocation) (directory path : Text) : Text :=
  let placed := r.place path
  match given r.publicPath, given r.mapFile with
  | none, some mapFile =>
    let target := NormalPath.resolve directory placed
    match target.within? (NormalPath.resolve directory mapFile).parent with
    | some components => NormalPath.relative components
    | none => target.toUri
  | _, _ => placed

end Relocation

end SourceMaps
