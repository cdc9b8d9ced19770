/-
# File trees

The directories and files that a program sees, as a value.  Names are looked up one after the other
as the system does it, so a double dot leads up from where the names before it led.
-/
import TreeDiff.Files.Path
import TreeDiff.Text.Quoted

namespace TreeDiff

/-- What a name in a directory stands for. -/
inductive FileNode where
  | directory
  | file (content : List UInt8)
deriving DecidableEq, Repr

/-- A file tree with a working directory.  Everything is listed under the names that lead to it from
the root; the root itself is a directory and not listed. -/
structure Files where
  workingDirectory : List String
  entries : List (List String × FileNode)
deriving Repr

/-- Why a file cannot be used. -/
inductive FileFault where
  | absent
  /-- A name before the last one stands for a file. -/
  | throughFile
  /-- A directory stands where a file is expected. -/
  | isDirectory
  /-- A file stands where a directory is expected. -/
  | isFile
deriving DecidableEq, Repr

/-- The text of a fault, with the path it concerns. -/
def FileFault.message (fault : FileFault) (p : Path) : String :=
  let (number, reason) := match fault with
    | absent => (2, "No such file or directory")
    | throughFile => (20, "Not a directory")
    | isDirectory => (21, "Is a directory")
    | isFile => (17, "File exists")
  s!"[Errno {number}] {reason}: {Text.quoted p.text}"

namespace Files

/-- What stands under names from the root. -/
def at? (files : Files) (names : List String) : Option FileNode :=
  if names.isEmpty then some .directory else files.entries.lookup names

/-- Follow names from a directory. -/
def follow (files : Files) (here : List String) : List String → Except FileFault (List String)
  | [] => .ok here
  | name :: rest =>
    match files.at? here with
    | none => .error .absent
    | some (.file _) => .error .throughFile
    | some .directory =>
      files.follow (if name = ".." then here.dropLast else here ++ [name]) rest

/-- The names from the root that a path leads to. -/
def locate (files : Files) (p : Path) : Except FileFault (List String) :=
  files.follow (if p.isAbsolute then [] else files.workingDirectory) p.names

/-- The names from the root that a path leads to if every name before the last one is a
directory. -/
def namesOf (files : Files) (p : Path) : List String :=
  let start := if p.isAbsolute then [] else files.workingDirectory
  p.names.foldl (fun here name => if name = ".." then here.dropLast else here ++ [name]) start

/-- What a path leads to. -/
def look (files : Files) (p : Path) : Except FileFault FileNode := do
  let names ← files.locate p
  match files.at? names with
  | some node => pure node
  | none => throw .absent

/-- Whether something stands at a path. -/
def exists? (files : Files) (p : Path) : Bool :=
  match files.look p with
  | .ok _ => true
  | .error _ => false

/-- Whether a file stands at a path. -/
def isFile (files : Files) (p : Path) : Bool :=
  match files.look p with
  | .ok (.file _) => true
  | _ => false

/-- Whether a directory stands at a path. -/
def isDirectory (files : Files) (p : Path) : Bool :=
  match files.look p with
  | .ok .directory => true
  | _ => false

/-- The content of the file at a path. -/
def read (files : Files) (p : Path) : Except FileFault (List UInt8) := do
  match ← files.look p with
  | .file content => pure content
  | .directory => throw .isDirectory

/-- Put a file or a directory under names from the root. -/
def put (files : Files) (names : List String) (node : FileNode) : Files :=
  { files with entries := assocPut names node files.entries }
where
  /-- Put a value under a key, in the place of its present value or at the end. -/
  assocPut (names : List String) (node : FileNode) :
      List (List String × FileNode) → List (List String × FileNode)
    | [] => [(names, node)]
    | (n, old) :: rest =>
      if n = names then (n, node) :: rest else (n, old) :: assocPut names node rest

/-- Make a directory and the directories above it, as far as they do not exist. -/
def makeDirectories (files : Files) (p : Path) : Except FileFault Files :=
  make files (if p.isAbsolute then [] else files.workingDirectory) p.names
where
  /-- Make the directories that names lead to. -/
  make (files : Files) (here : List String) : List String → Except FileFault Files
    | [] => .ok files
    | name :: rest =>
      let next := if name = ".." then here.dropLast else here ++ [name]
      match files.at? next with
      | some .directory => make files next rest
      | some (.file _) => .error (if rest.isEmpty then .isFile else .throughFile)
      | none => make (files.put next .directory) next rest

/-- Add bytes at the end of the file at a path, which is made if there is none. -/
def append (files : Files) (p : Path) (content : List UInt8) : Except FileFault Files := do
  let names ← files.locate p
  match files.at? names with
  | some .directory => throw .isDirectory
  | some (.file old) => pure (files.put names (.file (old ++ content)))
  | none =>
    match files.at? names.dropLast with
    | some .directory => pure (files.put names (.file content))
    | some (.file _) => throw .throughFile
    | none => throw .absent

end Files

end TreeDiff
