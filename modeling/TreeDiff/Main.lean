/-
# The program

The files, variables and grammars that a command line may use are read from the system, the command
is run on them, and what it has written is written to the system.
-/
import TreeDiff.Command.Needs
import TreeDiff.Parsing.Recording

namespace TreeDiff.Program

/-- The name of the program. -/
def name : String := "lorax"

/-- What stands at a path of the system: nothing, a file, or else a directory. -/
def lookAt (path : String) : IO (Option FileNode) := do
  match ← (IO.FS.readBinFile path).toBaseIO with
  | .ok content => pure (some (.file content.toList))
  | .error (.noFileOrDirectory ..) => pure none
  | .error _ => pure (some .directory)

/-- Names from the root as a path. -/
def absoluteText (names : List String) : String := "/" ++ "/".intercalate names

/-- Add what stands under names from the root, and under the names before them. -/
def observe (files : Files) (names : List String) : IO Files := do
  let mut files := files
  for count in List.range names.length do
    let start := names.take (count + 1)
    if (files.at? start).isNone then
      if let some node ← lookAt (absoluteText start) then
        files := files.put start node
  pure files

/-- Add what stands at paths. -/
def observeAll (files : Files) (paths : List Path) : IO Files :=
  paths.foldlM (fun files path => observe files (files.namesOf path)) files

/-- The environment variables for settings, in capitals or in small letters. -/
def environment : IO Variables := do
  let names := Section.all.flatMap Section.variableNames
  let found ← (names.map String.toUpper ++ names).mapM fun name => do
    pure ((← IO.getEnv name).map (name, ·))
  pure (found.filterMap id)

/-- The grammars that a file of the project describes. -/
def grammars (directory : String) : IO Grammars := do
  match ← lookAt (directory ++ "/.loraxmod/grammars.json") with
  | some (.file content) =>
    match Json.parse (Text.Utf8.decodeLossy content) with
    | .ok json => pure (.ofJson json)
    | .error _ => pure (.ofJson .null)
  | _ => pure (.ofJson .null)

/-- Everything that a command line may use. -/
def surroundings (args : List String) : IO Command.Surroundings := do
  let directory := toString (← IO.currentDir)
  let home := (← IO.getEnv "HOME").getD "/"
  let working := (Path.ofText directory).names
  let files ← observe ⟨working, []⟩ working
  let start : Command.Surroundings :=
    ⟨name, files, ⟨home, []⟩, Settings.userFile (.ofText home), ← environment, ← grammars directory⟩
  let named := Command.namedPaths name args
  let files ← observeAll files ([start.userFile, start.projectFile] ++ named)
  let known := { start with files }
  let files ← observeAll files (Command.furtherPaths known args)
  pure { known with files }

/-- Write what differs from what was there. -/
def store (before after : Files) : IO Unit := do
  for (names, node) in after.entries do
    if before.at? names ≠ some node then
      match node with
      | .directory => IO.FS.createDirAll (absoluteText names)
      | .file content => IO.FS.writeBinFile (absoluteText names) ⟨content.toArray⟩

/-- Run a command line, and end with its exit status. -/
def run (args : List String) : IO UInt32 := do
  let s ← surroundings args
  let done := Command.run s args
  store s.files done.journal.files
  for line in done.journal.stdout do
    IO.println line
  IO.print done.ending.output
  for line in done.journal.stderr do
    IO.eprintln line
  IO.eprint (done.ending.complaint s.program)
  if let .failed _ := done.ending then
    IO.eprintln "Error: the command failed"
  pure done.ending.status.toUInt32

end TreeDiff.Program

/-- The program. -/
def main (args : List String) : IO UInt32 := TreeDiff.Program.run args
