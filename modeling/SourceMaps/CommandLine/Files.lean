import SourceMaps.SourcePath
import SourceMaps.Text.Quoted

/-!
# Files

Commands read and write files through a record of the two operations, so that they can run on the
files of a machine as well as on a tree of files that is a plain value.

## Main definitions

* `FilePath`: the path of a file.
* `FileError`: why a file cannot be read or written.
* `FileAccess`: the operations in a monad.
* `FileTree`, `FileTree.access`: a tree of files and the operations on it.
-/

namespace SourceMaps.CommandLine

/-- A path without empty components and single dots. Double dots are kept. -/
structure FilePath where
  /-- The slashes at the start: none, one or two. -/
  root : Text
  /-- The components after the root. -/
  components : List Text
deriving DecidableEq

namespace FilePath

/-- The path that a text spells. -/
def ofText (text : Text) : FilePath :=
  ⟨NormalPath.rootOf text, (text.splitOn ↑ '/').filter fun c => c ≠ [] ∧ c ≠ [↑ '.']⟩

/-- The path as a text; the empty path is the directory itself. -/
def toText (path : FilePath) : Text :=
  if path.root.isEmpty ∧ path.components.isEmpty then "."
  else path.root ++ Text.join "/" path.components

end FilePath

/-- Why a file cannot be read or written. -/
structure FileError where
  /-- The number of the error. -/
  code : Nat
  /-- The error in words. -/
  description : Text
  /-- Does it name the path? Errors of files that are open do not. -/
  named : Bool := true
deriving DecidableEq

namespace FileError

/-- There is no such file. -/
def missing : FileError where
  code := 2
  description := "No such file or directory"

/-- A file stands where a directory is needed. -/
def notDirectory : FileError where
  code := 20
  description := "Not a directory"

/-- A directory stands where a file is needed. -/
def directory : FileError where
  code := 21
  description := "Is a directory"

/-- A file is getting larger than files may be. -/
def tooLarge : FileError where
  code := 27
  description := "File too large"
  named := false

/-- The words of an error at a path. -/
def message (e : FileError) (path : FilePath) : Text :=
  "[Errno " ++ Numeral.ofNat e.code ++ "] " ++ e.description ++
    if e.named then ": " ++ path.toText.quoted else ""

end FileError

/-- How files are read and written. -/
structure FileAccess (m : Type → Type) where
  /-- The bytes of a file. -/
  read : FilePath → m (Except FileError Bytes)
  /-- Replaces the contents of a file. If that fails, something may have been written already. -/
  write : FilePath → Bytes → m (Except FileError Unit)

/-! ### Trees -/

/-- Files by the components of their paths from the root. The directories are those that these paths
and the one of the working directory lead through. -/
structure FileTree where
  /-- Paths and contents. -/
  files : List (List Text × Bytes)
  /-- The path of the directory in which paths without a root start. -/
  workingDirectory : List Text := []
  /-- The number of bytes that a file may have. -/
  limit : Option Nat := none
deriving DecidableEq

namespace FileTree

/-- What stands at a place. -/
inductive Node where
  | file (contents : Bytes)
  | directory
  | missing
deriving DecidableEq

/-- What stands at a place without dots. -/
def node (tree : FileTree) (place : List Text) : Node :=
  match tree.files.lookup place with
  | some contents => .file contents
  | none =>
    if place.isPrefixOf tree.workingDirectory ∨
        tree.files.any fun (path, _) => place.isPrefixOf path then .directory
    else .missing

/-- The place that components lead to; all places on the way must be directories. -/
def walk (tree : FileTree) (place : List Text) : List Text → Except FileError (List Text)
  | [] => .ok place
  | component :: rest =>
    match tree.node place with
    | .file _ => .error .notDirectory
    | .missing => .error .missing
    | .directory =>
      if component = ".." then tree.walk place.dropLast rest
      else tree.walk (place ++ [component]) rest

/-- The place of a path, from the root or from the working directory. -/
def locate (tree : FileTree) (path : FilePath) : Except FileError (List Text) :=
  tree.walk (if path.root.isEmpty then tree.workingDirectory else []) path.components

/-- The bytes of a file. -/
def read (tree : FileTree) (path : FilePath) : Except FileError Bytes := do
  match tree.node (← tree.locate path) with
  | .file contents => return contents
  | .directory => throw .directory
  | .missing => throw .missing

/-- The tree with a file at a place. -/
def put (tree : FileTree) (place : List Text) (contents : Bytes) : FileTree :=
  { tree with files := (place, contents) :: tree.files.filter (·.1 ≠ place) }

/-- The tree with the contents of a file replaced; the file need not be there, its directory must. -/
def write (tree : FileTree) (path : FilePath) (contents : Bytes) : Except FileError FileTree := do
  let place ← tree.locate path
  match tree.node place with
  | .directory => throw .directory
  | _ => return tree.put place contents

/-- The bytes of contents that fit into a file. -/
def fitting (tree : FileTree) (contents : Bytes) : Bytes :=
  match tree.limit with
  | some limit => contents.take limit
  | none => contents

/-- The operations on a tree. Writing more than fits into a file fails and leaves what fits. -/
def access : FileAccess (StateM FileTree) where
  read path := return (← get).read path
  write path contents := do
    let tree ← get
    match tree.write path (tree.fitting contents) with
    | .error e => return .error e
    | .ok left =>
      set left
      if tree.fitting contents = contents then return .ok () else return .error .tooLarge

end FileTree

end SourceMaps.CommandLine
