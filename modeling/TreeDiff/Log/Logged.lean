/-
# Outcomes with their log

An operation says what it does while it runs, and ends with a result or a failure.  What was said
before a failure stays said.
-/
import TreeDiff.Failure
import TreeDiff.Log.Event

namespace TreeDiff

/-- The outcome of an operation, with the events that it logged in their order. -/
structure Logged (α : Type) where
  events : List Log.Event
  outcome : Except Failure α

namespace Logged

/-- A result without a word. -/
def result {α : Type} (a : α) : Logged α := ⟨[], .ok a⟩

/-- A failure without a word. -/
def fail {α : Type} (failure : Failure) : Logged α := ⟨[], .error failure⟩

/-- A report without a word. -/
def refuse {α : Type} (report : Report) : Logged α := fail (.reported report)

/-- Events alone. -/
def say (events : List Log.Event) : Logged Unit := ⟨events, .ok ()⟩

/-- An outcome without a word. -/
def ofOutcome {α : Type} (outcome : Except Failure α) : Logged α := ⟨[], outcome⟩

/-- One operation after another. -/
def andThen {α β : Type} (first : Logged α) (next : α → Logged β) : Logged β :=
  match first.outcome with
  | .error failure => ⟨first.events, .error failure⟩
  | .ok a =>
    let second := next a
    ⟨first.events ++ second.events, second.outcome⟩

instance : Monad Logged where
  pure := result
  bind := andThen

end Logged

end TreeDiff
