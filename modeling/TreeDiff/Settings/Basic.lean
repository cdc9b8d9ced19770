/-
# Settings

What can be set: where log events go, how trees are compared, how much text extraction shows, and
where schemas are looked for.  Every setting has a usual value.
-/
import TreeDiff.Diff.Classify
import TreeDiff.Schema.Lookup

namespace TreeDiff

/-- How log events are written. -/
inductive LogFormat where
  | json
  | console
deriving DecidableEq, Repr

namespace LogFormat

/-- All formats. -/
def all : List LogFormat := [json, console]

/-- The name of a format. -/
def name : LogFormat → String
  | json => "json"
  | console => "console"

end LogFormat

/-- Where log events are written to. -/
inductive Destination where
  | stderr
  | stdout
  | file (path : Path)
deriving DecidableEq, Repr

/-- The name of a destination: that of a stream, or the path of the file. -/
def Destination.name : Destination → String
  | stderr => "stderr"
  | stdout => "stdout"
  | file path => path.text

/-- An output for log events. -/
structure LogOutput where
  format : LogFormat
  destination : Destination
  /-- The least level that is written, if it differs from the common one. -/
  level : Option Log.Level
deriving DecidableEq, Repr

/-- The output to the console. -/
def LogOutput.usual : LogOutput := ⟨.console, .stderr, none⟩

/-- Where log events go. -/
structure LogSettings where
  /-- The least level that is written anywhere. -/
  level : Log.Level
  outputs : List LogOutput
deriving DecidableEq, Repr

/-- Warnings and worse go to the console. -/
def LogSettings.usual : LogSettings := ⟨.warning, [.usual]⟩

/-- How trees are compared. -/
structure DiffSettings where
  /-- The least similarity of a rename. -/
  threshold : Binary64
  /-- How many characters of a text are shown. -/
  truncateLength : Int
  /-- Whether texts are shown in full length. -/
  fullText : Bool
deriving DecidableEq, Repr

/-- The usual comparison. -/
def DiffSettings.usual : DiffSettings := ⟨Differ.usualThreshold, Differ.usualTruncateLength, false⟩

/-- How much text extraction shows. -/
structure ExtractionSettings where
  /-- The most characters of the text of a node. -/
  maxTextLength : Option Int
deriving DecidableEq, Repr

/-- Texts of any length. -/
def ExtractionSettings.usual : ExtractionSettings := ⟨none⟩

/-- No directories are searched for schemas. -/
def Schema.SearchPath.usual : Schema.SearchPath := ⟨[], []⟩

/-- All settings. -/
structure Settings where
  logging : LogSettings
  diff : DiffSettings
  extraction : ExtractionSettings
  schemas : Schema.SearchPath
deriving Repr

/-- The usual settings. -/
def Settings.usual : Settings := ⟨.usual, .usual, .usual, .usual⟩

end TreeDiff
