/-
# Failures

Why an operation on files, settings or languages has no result.
-/
import TreeDiff.Files.Tree
import TreeDiff.Json.Parser
import TreeDiff.Report
import TreeDiff.Settings.Violation
import TreeDiff.Text.Encoding
import TreeDiff.Tree.Codec
import TreeDiff.Yaml.Numeral

namespace TreeDiff

/-- Why an operation has no result. -/
inductive Failure where
  /-- Something that is reported with a code. -/
  | reported (report : Report)
  /-- Values that do not fit the settings they are given for. -/
  | violated (violations : List Violation)
  /-- A file that cannot be used. -/
  | unusable (fault : FileFault) (path : Path)
  /-- Bytes that encode no text. -/
  | undecodable (fault : Text.DecodeFault)
  /-- A text that is no JSON. -/
  | ungrammatical (error : Json.ParseError)
  /-- A JSON value that is no tree. -/
  | notATree (fault : Node.Fault)
  /-- A path into an unknown home. -/
  | unknownHome (home : UnknownHome)
  /-- An environment variable whose text is not the JSON that it should be. -/
  | undecodableVariable (name : String)
  /-- A setting whose name is no text. -/
  | namelessSetting
  /-- A value that does not fit and cannot even be shown. -/
  | unshowable
  /-- A text in a document that is not what its tag says. -/
  | misfit (misfit : Yaml.Misfit)
  /-- Markup of a text in which a tag is closed that is not open. -/
  | brokenMarkup
  /-- No parser has been made yet. -/
  | noParser
  /-- A place in a tree that is not there. -/
  | noSuchChild

/-- Whether a failure is a report. -/
def Failure.isReport : Failure → Bool
  | reported _ => true
  | _ => false

/-- A failure that is no report. -/
structure Escape where
  failure : Failure
  isReport_eq : failure.isReport = false

/-- The failure that a rejection is. -/
def Rejection.failure : Rejection → Failure
  | .violations all => .violated all
  | .unknownHome home => .unknownHome home

/-- The failure of a check. -/
def Checked.outcome {α : Type} (check : Checked α) : Except Failure α :=
  check.mapError Rejection.failure

end TreeDiff
