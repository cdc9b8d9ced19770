/-
# Loading the settings

Settings are given in four places.  What a program gives counts most, then the environment
variables, then the file of the project, then the file of the user.  Sections are merged setting by
setting.  What comes out is checked once more as a whole.
-/
import TreeDiff.Settings.Reader
import TreeDiff.Value.Shown

namespace TreeDiff

/-- A section that is complete and checked. -/
inductive SectionSettings where
  | logging (settings : LogSettings)
  | diff (settings : DiffSettings)
  | extraction (settings : ExtractionSettings)
  | schemas (settings : Schema.SearchPath)
deriving Repr

namespace SectionSettings

/-- Which section it is. -/
def part : SectionSettings → Section
  | logging _ => .logging
  | diff _ => .diff
  | extraction _ => .extraction
  | schemas _ => .schemas

/-- The section that a value describes. -/
def ofValue [Coercions] (homes : Homes) (part : Section) (v : Value) : Checked SectionSettings :=
  match part with
  | .logging => (LogSettings.ofValue homes v).map logging
  | .diff => (DiffSettings.ofValue v).map diff
  | .extraction => (ExtractionSettings.ofValue v).map extraction
  | .schemas => (Schema.SearchPath.ofValue v).map schemas

/-- Settings with the section in the place of theirs. -/
def replaceIn (settings : Settings) : SectionSettings → Settings
  | logging s => { settings with logging := s }
  | diff s => { settings with diff := s }
  | extraction s => { settings with extraction := s }
  | schemas s => { settings with schemas := s }

end SectionSettings

namespace Settings

/-- The names that lead from a project to its file of settings. -/
def fileNames : List String := [".loraxmod", "config.yaml"]

/-- The file of settings of a project. -/
def projectFile (project : Path) : Path := fileNames.foldl Path.child project

/-- The names that lead from the home of a user to the file of settings. -/
def userFileNames : List String := [".config", "loraxmod", "config.yaml"]

/-- The file of settings of a user. -/
def userFile (home : Path) : Path := userFileNames.foldl Path.child home

/-- Why a file holds no settings. -/
def unreadable (file : Path) : Unread → Failure
  | .refused message => .reported (.unreadableSettings file.text message)
  | .failed escape => escape.failure

/-- The entries by section in a file; a file that is missing or says nothing has none. -/
def fileEntries [Reader] (files : Files) (file : Path) : Except Failure (List (Value × Value)) :=
  if !files.exists? file then .ok []
  else match files.read file with
    | .error fault => .error (.unusable fault file)
    | .ok bytes =>
      match Reader.document file.text bytes with
      | .error reason => .error (unreadable file reason)
      | .ok (.map entries) => .ok entries
      | .ok v =>
        if v.isFalsy then .ok []
        else .error (.reported
          (.unreadableSettings file.text "top-level value must be a mapping"))

/-- The entries by section that the variables hold. -/
def variableEntries [Reader] (environment : Variables) : Except Failure (List (Value × Value)) := do
  let said ← (Reader.sections environment).mapError Escape.failure
  pure (Section.entries said Section.all)

/-- Where settings come from. -/
structure Sources where
  files : Files
  homes : Homes
  userFile : Path
  projectFile : Path
  environment : Variables
  /-- What a program gives, by section. -/
  given : List (Value × Value)
  /-- What a program gives as complete sections. -/
  complete : List SectionSettings

/-- Whether an entry is no text or names no section. -/
def isStray (key : Value) : Bool :=
  match key with
  | .text name => (Section.ofName? name).isNone
  | _ => true

/-- Names that are no sections. -/
def strays (entries : List (Value × Value)) : Checked Unit :=
  let all := entries.filter fun (key, _) => isStray key
  if all.isEmpty then .ok ()
  else .error (.violations (all.map fun (key, v) =>
    ⟨[key.display], "extra_forbidden", "Extra inputs are not permitted", v⟩))

/-- The entries of all sources merged, complete sections left out. -/
def Sources.entries [Reader] (s : Sources) : Except Failure (List (Value × Value)) := do
  let user ← fileEntries s.files s.userFile
  let project ← fileEntries s.files s.projectFile
  let environment ← variableEntries s.environment
  let merged := Value.mergeEntries (Value.mergeEntries user project)
    (Value.mergeEntries environment s.given)
  let isComplete (key : Value) : Bool := s.complete.any fun c => key.sameKey (.text c.part.name)
  pure (merged.filter fun (key, _) => !isComplete key)

/-- Whether a key is a text. -/
def isNamed (entry : Value × Value) : Bool :=
  match entry.1 with
  | .text _ => true
  | _ => false

/-- The report about the first value that does not fit, if that can be shown. -/
def invalid : Rejection → Failure
  | .unknownHome home => .unknownHome home
  | .violations all =>
    match all with
    | [] => .violated []
    | v :: _ =>
      if v.input.isShowable then
        .reported (.invalidSetting (".".intercalate v.place) v.input.display v.message)
      else .unshowable

/-- Settings that are written down and checked once more. -/
def recheck [Coercions] (homes : Homes) (settings : Settings) : Except Failure Settings :=
  (ofValue homes settings.toValue).outcome

/-- The settings that all sources give together.  A complete section has not been checked here
before the end, where a value that does not fit is no longer reported. -/
def load [Coercions] [Reader] (s : Sources) : Except Failure Settings := do
  let entries ← s.entries
  if entries.all isNamed then
    match (ofEntries s.homes entries).both (strays entries) with
    | .ok (settings, _) => recheck s.homes (s.complete.foldl SectionSettings.replaceIn settings)
    | .error rejection => throw (invalid rejection)
  else throw .namelessSetting

end Settings

end TreeDiff
