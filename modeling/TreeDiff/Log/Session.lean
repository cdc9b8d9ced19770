/-
# Sessions

A program sets up its log as often as it likes, and events come in between.  It keeps the sections
of its settings as objects that it can hand over to more than one call; a call that needs other
settings than those it is given makes new objects.
-/
import TreeDiff.Log.Router

namespace TreeDiff.Log

/-- The objects of a program that hold settings of logs.  Each output is an object of its own, and a
section names its outputs by their numbers. -/
structure Shelf where
  outputs : List LogOutput
  sections : List (Level × List Nat)
  /-- Sections name outputs that are there. -/
  known : ∀ part ∈ sections, ∀ number ∈ part.2, number < outputs.length

namespace Shelf

/-- The settings that the section of a number holds. -/
def settings? (shelf : Shelf) (number : Nat) : Option LogSettings :=
  shelf.sections[number]?.map fun part => ⟨part.1, part.2.filterMap (shelf.outputs[·]?)⟩

/-- New objects that hold settings, with the number of their section. -/
def add (shelf : Shelf) (settings : LogSettings) : Shelf × Nat :=
  let numbers := List.range' shelf.outputs.length settings.outputs.length
  (⟨shelf.outputs ++ settings.outputs, shelf.sections ++ [(settings.level, numbers)], by
    intro part hpart number hnumber
    rw [List.length_append]
    rcases List.mem_append.1 hpart with hpart | hpart
    · exact Nat.lt_add_right _ (shelf.known part hpart number hnumber)
    · rw [List.mem_singleton.1 hpart] at hnumber
      exact (List.mem_range'_1.1 hnumber).2⟩,
    shelf.sections.length)

/-- The section that a call hands over, or else a new one. -/
def given (shelf : Shelf) (call : Setup Nat) : Shelf × Nat :=
  match call.config with
  | some number => (shelf, number)
  | none => shelf.add call.plain

/-- A copy of a section and of its outputs by which everything is written everywhere. -/
def copyVerbose (shelf : Shelf) (number : Nat) : Option (Shelf × Nat) :=
  (shelf.settings? number).map fun settings => shelf.add settings.verbose

/-- The section by which a call sets up the log. -/
def prepare (shelf : Shelf) (call : Setup Nat) : Option (Shelf × Nat) :=
  let (shelf, number) := shelf.given call
  if call.verbose then shelf.copyVerbose number else some (shelf, number)

end Shelf

/-- What a program and its log remember between calls. -/
structure Session where
  shelf : Shelf
  router : Router

namespace Session

/-- Set up the log, if the section that is handed over is there and every output can be opened. -/
def configure (s : Session) (call : Setup Nat) : Option Session := do
  let (shelf, number) ← s.shelf.prepare call
  let settings ← shelf.settings? number
  match s.router.configure settings with
  | (router, none) => some ⟨shelf, router⟩
  | (_, some _) => none

/-- Write an event. -/
def emit [Wording] (s : Session) (e : Event) : Session := { s with router := s.router.emit e }

/-- A step of a session. -/
inductive Step where
  | configure (call : Setup Nat)
  | emit (e : Event)

section

variable [Wording]

/-- The session after a step. -/
def step (s : Session) : Step → Option Session
  | .configure call => s.configure call
  | .emit e => some (s.emit e)

/-- The session after steps all of which succeed. -/
def run (s : Session) (steps : List Step) : Option Session := steps.foldlM step s

end

end Session

end TreeDiff.Log
