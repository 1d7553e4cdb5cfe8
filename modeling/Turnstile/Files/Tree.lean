import Turnstile.Files.Path

/-!
# Files

What the program asks of a file system is an `Access`: reading a file, asking whether something
is there, and making an empty file. The file system of the host is one; a `FileTree`, a value
that holds folders and files, gives another.
-/

namespace Turnstile

/-- Why a file cannot be used. -/
inductive FileFault where
  /-- Nothing has this path. -/
  | missing
  /-- The path is that of a folder. -/
  | isFolder
  /-- A part of the path that should be a folder is a file. -/
  | notFolder
  /-- Anything else that the host reports. -/
  | other (reason : String)
  deriving DecidableEq, Repr

namespace FileFault

/-- A fault in words. -/
def reason : FileFault → String
  | missing => "no such file or directory"
  | isFolder => "is a directory"
  | notFolder => "not a directory"
  | other reason => reason

/-- The report of a file that could not be read: a folder can be opened but not read. -/
def whileReading (path : String) (fault : FileFault) : String :=
  (if fault = .isFolder then "read " else "open ") ++ path ++ ": " ++ fault.reason

/-- The report of a file that could not be made. -/
def whileMaking (path : String) (fault : FileFault) : String :=
  "open " ++ path ++ ": " ++ fault.reason

end FileFault

/-- Access to files by paths from the root. -/
structure Access (m : Type → Type) where
  /-- The text of a file. -/
  read : String → m (Except FileFault String)
  /-- Whether a path is that of a file or folder. -/
  isPresent : String → m Bool
  /-- Make an empty file, in the place of one that is there. -/
  make : String → m (Except FileFault Unit)

/-- Folders and files, each by the parts of its path from the root. -/
structure FileTree where
  /-- The folders, those that files lie in apart. -/
  folders : List (List String)
  /-- The files with their texts. -/
  files : List (List String × String)
  deriving DecidableEq, Repr, Inhabited

namespace FileTree

/-- What a path is that of. -/
inductive Entry where
  | folder
  | file (text : String)
  deriving DecidableEq, Repr

/-- What has the given parts: the root is a folder, and so is every beginning of the path of a
folder or file. -/
def entry? (tree : FileTree) (path : List String) : Option Entry :=
  match tree.files.lookup path with
  | some text => some (.file text)
  | none =>
    if path.isEmpty || (tree.folders ++ tree.files.map Prod.fst).any path.isPrefixOf then
      some .folder
    else none

/-- Follow parts down from a path, which must be that of a folder as long as parts are left. -/
def walk (tree : FileTree) (path : List String) : List String → Except FileFault (List String)
  | [] => .ok path
  | part :: rest =>
    match tree.entry? path with
    | none => .error .missing
    | some (.file _) => .error .notFolder
    | some .folder =>
      if part = "" || part = "." then tree.walk path rest
      else if part = ".." then tree.walk path.dropLast rest
      else tree.walk (path ++ [part]) rest

/-- The text of the file with a path. -/
def read (tree : FileTree) (path : String) : Except FileFault String := do
  match tree.entry? (← tree.walk [] (Path.parts path)) with
  | some (.file text) => return text
  | some .folder => throw .isFolder
  | none => throw .missing

/-- Whether something has a path. -/
def isPresent (tree : FileTree) (path : String) : Bool :=
  match tree.walk [] (Path.parts path) with
  | .ok parts => (tree.entry? parts).isSome
  | .error _ => false

/-- The tree with an empty file at a path whose folder exists. -/
def make (tree : FileTree) (path : String) : Except FileFault FileTree := do
  let parts ← tree.walk [] (Path.parts path)
  match tree.entry? parts with
  | some .folder => throw .isFolder
  | some (.file _) =>
    return { tree with
      files := tree.files.map fun (p, text) => (p, if p = parts then "" else text) }
  | none =>
    match tree.entry? parts.dropLast with
    | some .folder => return { tree with files := tree.files ++ [(parts, "")] }
    | some (.file _) => throw .notFolder
    | none => throw .missing

/-- Access to the files of a tree that is passed along. -/
def access : Access (StateM FileTree) where
  read path := return (← get).read path
  isPresent path := return (← get).isPresent path
  make path := do
    match (← get).make path with
    | .ok tree =>
      set tree
      return .ok ()
    | .error fault => return .error fault

end FileTree

end Turnstile
