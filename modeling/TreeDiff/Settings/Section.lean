/-
# Checking sections

A section is a map.  Settings that it does not name have their usual value, and names that mean
nothing in it are passed over.  All settings of a section are checked, whatever is wrong with some.
The other way round, settings can be written down as a value that names each of them.
-/
import TreeDiff.Settings.Check

namespace TreeDiff

/-- The entries of a section; `model` is what the section is called in messages. -/
def sectionEntries (model : String) (v : Value) : Checked (List (Value × Value)) :=
  match v with
  | .map entries => .ok entries
  | _ => .broken "model_type" s!"Input should be a valid dictionary or instance of {model}" v

/-- The setting of a name among the entries of a section. -/
def setting {α : Type} (entries : List (Value × Value)) (name : String) (usual : α)
    (check : Value → Checked α) : Checked α :=
  match Value.lookup name entries with
  | none => .ok usual
  | some v => (check v).within name

namespace LogOutput

/-- An output that a value describes. -/
def ofValue [Coercions] (homes : Homes) (v : Value) : Checked LogOutput := do
  let entries ← sectionEntries "LogOutputConfig" v
  let (format, destination, level) ←
    (setting entries "format" usual.format (Check.oneOf LogFormat.name LogFormat.all)).both
      ((setting entries "destination" usual.destination (Check.destination homes)).both
        (setting entries "level" usual.level (Check.optional Check.level)))
  pure ⟨format, destination, level⟩

/-- The output as a value. -/
def toValue (o : LogOutput) : Value :=
  .map [(.text "format", .text o.format.name), (.text "destination", .text o.destination.name),
    (.text "level", (o.level.map fun level => Value.text level.name).getD .null)]

end LogOutput

namespace LogSettings

/-- The names of the settings. -/
def names : List String := ["level", "outputs"]

/-- The section that a value describes. -/
def ofValue [Coercions] (homes : Homes) (v : Value) : Checked LogSettings := do
  let entries ← sectionEntries "LoggingConfig" v
  let (level, outputs) ← (setting entries "level" usual.level Check.level).both
    (setting entries "outputs" usual.outputs (Check.list (LogOutput.ofValue homes)))
  pure ⟨level, outputs⟩

/-- The section as a value. -/
def toValue (s : LogSettings) : Value :=
  .map [(.text "level", .text s.level.name),
    (.text "outputs", .list (s.outputs.map LogOutput.toValue))]

end LogSettings

namespace DiffSettings

/-- The names of the settings. -/
def names : List String := ["similarity_threshold", "truncate_length", "include_full_text"]

/-- The section that a value describes. -/
def ofValue [Coercions] (v : Value) : Checked DiffSettings := do
  let entries ← sectionEntries "DiffConfig" v
  let (threshold, truncateLength, fullText) ←
    (setting entries "similarity_threshold" usual.threshold Check.threshold).both
      ((setting entries "truncate_length" usual.truncateLength Check.positive).both
        (setting entries "include_full_text" usual.fullText Check.truth))
  pure ⟨threshold, truncateLength, fullText⟩

/-- The section as a value. -/
def toValue (s : DiffSettings) : Value :=
  .map [(.text "similarity_threshold", .float s.threshold),
    (.text "truncate_length", .int s.truncateLength), (.text "include_full_text", .bool s.fullText)]

end DiffSettings

namespace ExtractionSettings

/-- The names of the settings. -/
def names : List String := ["max_text_length"]

/-- The section that a value describes. -/
def ofValue [Coercions] (v : Value) : Checked ExtractionSettings := do
  let entries ← sectionEntries "ExtractionConfig" v
  let maxTextLength ←
    setting entries "max_text_length" usual.maxTextLength (Check.optional Check.integer)
  pure ⟨maxTextLength⟩

/-- The section as a value. -/
def toValue (s : ExtractionSettings) : Value :=
  .map [(.text "max_text_length", (s.maxTextLength.map Value.int).getD .null)]

end ExtractionSettings

namespace Schema.SearchPath

/-- The names of the settings. -/
def names : List String := ["schema_dirs", "grammar_dirs"]

/-- The section that a value describes. -/
def ofValue [Coercions] (v : Value) : Checked SearchPath := do
  let entries ← sectionEntries "SchemaConfig" v
  let (schemas, grammars) ←
    (setting entries "schema_dirs" usual.schemas (Check.list Check.path)).both
      (setting entries "grammar_dirs" usual.grammars (Check.list Check.path))
  pure ⟨schemas, grammars⟩

/-- The section as a value. -/
def toValue (s : SearchPath) : Value :=
  .map [(.text "schema_dirs", .list (s.schemas.map fun p => .text p.text)),
    (.text "grammar_dirs", .list (s.grammars.map fun p => .text p.text))]

end Schema.SearchPath

/-- A section of the settings. -/
inductive Section where
  | logging
  | diff
  | extraction
  | schemas
deriving DecidableEq, Repr

namespace Section

/-- All sections, in the order in which they are checked. -/
def all : List Section := [logging, diff, extraction, schemas]

/-- The name of a section. -/
def name : Section → String
  | logging => "logging"
  | diff => "diff"
  | extraction => "extraction"
  | schemas => "schemas"

/-- The section with a name. -/
def ofName? (name : String) : Option Section := all.find? fun part => part.name = name

/-- The names of the settings of a section. -/
def settingNames : Section → List String
  | logging => LogSettings.names
  | diff => DiffSettings.names
  | extraction => ExtractionSettings.names
  | schemas => Schema.SearchPath.names

/-- The settings that are lists. -/
def listNames : Section → List String
  | logging => ["outputs"]
  | diff => []
  | extraction => []
  | schemas => ["schema_dirs", "grammar_dirs"]

/-- What is said about some sections, under their names. -/
def entries (said : Section → Option Value) (parts : List Section) : List (Value × Value) :=
  parts.filterMap fun part => (said part).map fun v => (.text part.name, v)

end Section

namespace Settings

/-- The settings among entries by section; other entries are passed over. -/
def ofEntries [Coercions] (homes : Homes) (entries : List (Value × Value)) :
    Checked Settings := do
  let (logging, diff, extraction, schemas) ←
    (setting entries "logging" usual.logging (LogSettings.ofValue homes)).both
      ((setting entries "diff" usual.diff DiffSettings.ofValue).both
        ((setting entries "extraction" usual.extraction ExtractionSettings.ofValue).both
          (setting entries "schemas" usual.schemas Schema.SearchPath.ofValue)))
  pure ⟨logging, diff, extraction, schemas⟩

/-- The settings that a value describes. -/
def ofValue [Coercions] (homes : Homes) (v : Value) : Checked Settings := do
  let entries ← sectionEntries "LoraxConfig" v
  ofEntries homes entries

/-- The settings as a value. -/
def toValue (s : Settings) : Value :=
  .map [(.text "logging", s.logging.toValue), (.text "diff", s.diff.toValue),
    (.text "extraction", s.extraction.toValue), (.text "schemas", s.schemas.toValue)]

end Settings

end TreeDiff
