/-
# Reading files and variables

Files of settings hold YAML documents, and variables hold texts or JSON.  How these are read is left
open: a document has a value, is refused with a message, or fails in some other way, and variables
say something about each section or fail.  Usually they are read by the rules of the modules on YAML
and on variables.
-/
import TreeDiff.Settings.Variables
import TreeDiff.Yaml.Document

namespace TreeDiff

/-- Why a document is not read. -/
inductive Unread where
  /-- It breaks the rules of its format. -/
  | refused (message : String)
  /-- Something fails while it is read. -/
  | failed (escape : Escape)

/-- How settings are read from files and from variables. -/
class Reader where
  /-- The value of the document in a file, by the name of the file and its bytes. -/
  document (file : String) (bytes : List UInt8) : Except Unread Value
  /-- The value that the JSON text of a variable denotes. -/
  json? (text : String) : Option Value
  /-- What the variables say about each section. -/
  sections (environment : Variables) : Except Escape (Section → Option Value)

/-- Why a document with the name of a file is not read. -/
def Yaml.Unreadable.toUnread (file : String) : Unreadable → Unread
  | .undecodable fault => .failed ⟨.undecodable fault, rfl⟩
  | .unacceptable c offset => .refused (unacceptableMessage file c offset)
  | .ungrammatical fault => .refused (fault.message file)
  | .misfit kind => .failed ⟨.misfit kind, rfl⟩

/-- The usual reader. -/
instance Reader.usual : Reader where
  document file bytes := (Yaml.readBytes bytes).mapError (Yaml.Unreadable.toUnread file)
  json? := Variables.json?
  sections := Variables.sections

end TreeDiff
