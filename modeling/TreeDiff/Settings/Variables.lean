/-
# Settings in environment variables

The variable `LORAXMOD__SECTION__NAME` holds a setting, and `LORAXMOD__SECTION` a whole section as
JSON.  The case of the names does not count.  A setting that is a list is given as JSON, too.
-/
import TreeDiff.Failure
import TreeDiff.Settings.Section
import TreeDiff.Value.Merge

namespace TreeDiff

/-- Environment variables by their names. -/
abbrev Variables := List (String × String)

namespace Variables

/-- What the names of all variables for settings start with, in lower case. -/
def start : String := "loraxmod"

/-- What separates the parts of a name. -/
def separator : String := "__"

/-- The variables by their names in lower case; of two that become one the later counts. -/
def lowered (environment : Variables) : Variables :=
  environment.foldl (fun known (name, text) => assocPut (name.map Char.toLower) text known) []

/-- The parts of a name between separators. -/
def splitParts : List Char → List (List Char)
  | [] => [[]]
  | '_' :: '_' :: rest => [] :: splitParts rest
  | c :: rest =>
    match splitParts rest with
    | [] => [[c]]
    | part :: parts => (c :: part) :: parts

/-- The value that the JSON text of a variable denotes. -/
def json? (text : String) : Option Value := (Json.parse text).toOption.map Value.ofJson

/-- The value that the JSON text of a variable should denote. -/
def decode (name text : String) : Except Escape Value :=
  match json? text with
  | some v => .ok v
  | none => .error ⟨.undecodableVariable name, rfl⟩

/-- Put a value at the end of a chain of names.  Names that are missing on the way are made, and
where something else than a map stands in the way nothing happens. -/
def place (value : Value) : List String → List (Value × Value) → List (Value × Value)
  | [], entries => entries
  | [name], entries => Value.put (.text name) value entries
  | name :: next :: rest, entries =>
    match Value.lookup name entries with
    | none => Value.put (.text name) (.map (place value (next :: rest) [])) entries
    | some (.map inner) =>
      Value.put (.text name) (.map (place value (next :: rest) inner)) entries
    | some _ => entries

end Variables

namespace Section

/-- The name of the variable that holds the whole section. -/
def variableName (part : Section) : String := Variables.start ++ Variables.separator ++ part.name

/-- The names of all variables that say something about a section. -/
def variableNames (part : Section) : List String :=
  part.variableName :: part.settingNames.map fun name =>
    part.variableName ++ Variables.separator ++ name

/-- The value that a variable gives to a setting. -/
def variableValue (part : Section) (names : List String) (text : String) : Except Escape Value :=
  match names with
  | [name] =>
    if part.listNames.contains name && !text.isEmpty then Variables.decode name text
    else .ok (.text text)
  | _ => .ok (.text text)

/-- Add what a variable says, if it is one for a single setting of the section. -/
def addSingle (part : Section) (entries : List (Value × Value)) (held : String × String) :
    Except Escape (List (Value × Value)) :=
  let start := (part.variableName ++ Variables.separator).toList
  if start.isPrefixOf held.1.toList then do
    let names := (Variables.splitParts (held.1.toList.drop start.length)).map String.ofList
    let value ← part.variableValue names held.2
    pure (Variables.place value names entries)
  else pure entries

/-- The entries of a section that single variables hold. -/
def singleEntries (part : Section) (environment : Variables) :
    Except Escape (List (Value × Value)) :=
  environment.foldlM part.addSingle []

/-- The name of a setting whatever its case. -/
def properName (part : Section) (key : Value) : Value :=
  match key with
  | .text name =>
    match part.settingNames.find? fun n => n = name.map Char.toLower with
    | some proper => .text proper
    | none => key
  | _ => key

/-- Entries under the proper names of their settings. -/
def properEntries (part : Section) (entries : List (Value × Value)) : List (Value × Value) :=
  entries.foldl (fun known (key, value) => Value.put (part.properName key) value known) []

/-- What the variables say about a section.  Single settings are laid over the whole section. -/
def ofVariables (part : Section) (environment : Variables) : Except Escape (Option Value) := do
  match environment.lookup part.variableName with
  | none =>
    let entries ← part.singleEntries environment
    pure (if entries.isEmpty then none else some (.map (part.properEntries entries)))
  | some text =>
    match ← Variables.decode part.name text with
    | .null => pure none
    | .map whole =>
      let entries ← part.singleEntries environment
      pure (some (.map (part.properEntries (Value.mergeEntries whole entries))))
    | other => pure (some other)

end Section

/-- What the variables say about each section. -/
def Variables.sections (environment : Variables) : Except Escape (Section → Option Value) := do
  let known := environment.lowered
  let logging ← Section.logging.ofVariables known
  let diff ← Section.diff.ofVariables known
  let extraction ← Section.extraction.ofVariables known
  let schemas ← Section.schemas.ofVariables known
  pure fun
    | .logging => logging
    | .diff => diff
    | .extraction => extraction
    | .schemas => schemas

end TreeDiff
