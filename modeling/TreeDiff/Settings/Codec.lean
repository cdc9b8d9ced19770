/-
# Settings as JSON

All settings, those with their usual value included.
-/
import TreeDiff.Settings.Basic

namespace TreeDiff

/-- An output for log events. -/
def LogOutput.toJson (o : LogOutput) : Json :=
  .obj [("format", .str o.format.name), ("destination", .str o.destination.name),
    ("level", .ofOption (o.level.map Log.Level.name))]

/-- The section for log events. -/
def LogSettings.toJson (s : LogSettings) : Json :=
  .obj [("level", .str s.level.name), ("outputs", .arr (s.outputs.map LogOutput.toJson))]

/-- The section for comparisons. -/
def DiffSettings.toJson (s : DiffSettings) : Json :=
  .obj [("similarity_threshold", .float s.threshold), ("truncate_length", .int s.truncateLength),
    ("include_full_text", .bool s.fullText)]

/-- The section for extraction. -/
def ExtractionSettings.toJson (s : ExtractionSettings) : Json :=
  .obj [("max_text_length", (s.maxTextLength.map Json.int).getD .null)]

/-- The section for schemas. -/
def Schema.SearchPath.toJson (s : SearchPath) : Json :=
  .obj [("schema_dirs", .strings (s.schemas.map Path.text)),
    ("grammar_dirs", .strings (s.grammars.map Path.text))]

/-- All settings. -/
def Settings.toJson (s : Settings) : Json :=
  .obj [("logging", s.logging.toJson), ("diff", s.diff.toJson),
    ("extraction", s.extraction.toJson), ("schemas", s.schemas.toJson)]

end TreeDiff
