/-
# Log events

What the operations of this library have to say, as values: who says it, how important it is, what
happened, and the facts.
-/
import TreeDiff.Json.Basic

namespace TreeDiff.Log

/-- How important an event is. -/
inductive Level where
  | debug
  | info
  | warning
  | error
  | critical
deriving DecidableEq, Repr, Inhabited

namespace Level

/-- All levels, the least important first. -/
def all : List Level := [debug, info, warning, error, critical]

/-- The rank of a level. -/
def rank : Level → Nat
  | debug => 10
  | info => 20
  | warning => 30
  | error => 40
  | critical => 50

/-- The name of a level in settings. -/
def name : Level → String
  | debug => "DEBUG"
  | info => "INFO"
  | warning => "WARNING"
  | error => "ERROR"
  | critical => "CRITICAL"

/-- The name of a level in log lines. -/
def word : Level → String
  | debug => "debug"
  | info => "info"
  | warning => "warning"
  | error => "error"
  | critical => "critical"

/-- The level with a name. -/
def ofName? (name : String) : Option Level := all.find? fun level => level.name = name

end Level

/-- A log event. -/
structure Event where
  /-- The component that speaks. -/
  logger : String
  level : Level
  name : String
  fields : List (String × Json)

end TreeDiff.Log
