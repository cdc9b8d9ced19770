/-
# The files that a command may use

A command runs on a file tree that is known beforehand.  The files that its words name are known
from the words alone; which schemas and logs it may use is known once the settings are.
-/
import TreeDiff.Command.Run

namespace TreeDiff.Command

/-- The paths that the words of a command line name. -/
def namedPaths (program : String) (args : List String) : List Path :=
  match readCall program args with
  | .error _ => []
  | .ok call =>
    match readWords program call.command call.words with
    | .error _ => []
    | .ok w => (w.plain ++ w.values .schema).map Path.ofText

/-- The files to which the log is written. -/
def logPaths (settings : Settings) : List Path :=
  settings.logging.outputs.filterMap fun o =>
    match o.destination with
    | .file path => some path
    | _ => none

/-- The files in which the schema of a source is looked for. -/
def schemaPaths (s : Surroundings) (settings : Settings) (file : Path) (reading : Reading) :
    List Path :=
  match languageOf file reading with
  | .error _ => []
  | .ok name =>
    let language := match Language.find? name with
      | some l => l.name
      | none => name
    match Schema.candidates s.homes settings.schemas language with
    | .error _ => []
    | .ok paths => paths

/-- The files that a request leads to. -/
def requestPaths (s : Surroundings) (settings : Settings) : Request → List Path
  | .resolve _ _ => []
  | .extract source reading _ => schemaPaths s settings source reading
  | .diff old _ reading _ _ => schemaPaths s settings old reading

/-- The files that a command may use besides those that its words name. -/
def furtherPaths (s : Surroundings) (args : List String) : List Path :=
  match readCall s.program args, s.settings with
  | .ok call, .ok settings =>
    let requested := match readRequest s call with
      | .error _ => []
      | .ok request => requestPaths s settings request
    logPaths settings ++ requested
  | _, _ => []

end TreeDiff.Command
