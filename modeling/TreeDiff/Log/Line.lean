/-
# Lines of a log

How an event is put into words is up to a library that can be exchanged; nothing else depends on
what its lines look like.  The usual one writes an event on one line: as a JSON object, or for
people, with its fields sorted by name.
-/
import TreeDiff.Json.Printer
import TreeDiff.Log.Event
import TreeDiff.Settings.Basic
import TreeDiff.Text.Order
import TreeDiff.Value.Shown

namespace TreeDiff.Log

/-- How events are put into words; the time at which they are written is left out. -/
class Wording where
  /-- The line of an event in a format, on a stream or else in a file. -/
  line : LogFormat → Bool → Event → String
  /-- An event that nobody has a format for. -/
  bare : Event → String

/-- The names under which a line says more than the fields of its event. -/
def reservedNames : List String := ["event", "logger", "level", "timestamp"]

namespace Event

/-- The name of the component that speaks; without a name it is the root. -/
def speaker (e : Event) : String := if e.logger.isEmpty then "root" else e.logger

/-- The fields of an event whose names are not reserved. -/
def freeFields (e : Event) : List (String × Json) :=
  e.fields.filter fun (name, _) => !reservedNames.contains name

/-- The event as JSON. -/
def toJson (e : Event) : Json :=
  .obj (e.freeFields ++
    [("event", .str e.name), ("logger", .str e.speaker), ("level", .str e.level.word)])

/-- The characters that a text without quotes cannot have in a line for people. -/
def quotedChars : List Char := [' ', '\t', '=', '\r', '\n', '"', '\'']

/-- The value of a field in a line for people: a text is quoted only if it has to be. -/
def fieldText : Json → String
  | .str s => if s.toList.any quotedChars.contains then Text.quoted s else s
  | json => (Value.ofJson json).shown

/-- The parts of a line for people. -/
def consoleParts (e : Event) : List String :=
  let fields := e.freeFields.mergeSort fun (a, _) (b, _) => Text.notAfter a b
  [s!"[{e.level.word}]", e.name, s!"[{e.speaker}]"] ++
    fields.map fun (name, value) => s!"{name}={fieldText value}"

/-- A text without blanks at its end. -/
def withoutFinalBlanks (text : String) : String :=
  String.ofList (text.toList.reverse.dropWhile (· = ' ')).reverse

/-- The event on a line. -/
def line (e : Event) : LogFormat → String
  | .json => Json.render .line e.toJson
  | .console => withoutFinalBlanks (" ".intercalate (e.consoleParts.filter (!·.isEmpty)))

/-- The event as the map that it is. -/
def bare (e : Event) : String := (Value.ofJson e.toJson).shown

end Event

instance Wording.usual : Wording := ⟨fun format _ e => e.line format, Event.bare⟩

end TreeDiff.Log
