/-
# Violations

A value that does not fit the place it is given for: where that is, what is wrong, and the value.
-/
import TreeDiff.Files.Path
import TreeDiff.Value.Basic

namespace TreeDiff

/-- A value that does not fit. -/
structure Violation where
  /-- The names and list positions that lead to the value. -/
  place : List String
  /-- The rule that is broken. -/
  rule : String
  message : String
  input : Value

namespace Violation

/-- The violation seen from one level further up. -/
def within (name : String) (v : Violation) : Violation := { v with place := name :: v.place }

end Violation

/-- Why values are not accepted. -/
inductive Rejection where
  /-- Everything that does not fit, in order. -/
  | violations (all : List Violation)
  /-- A path leads into an unknown home, so that the other values are beside the point. -/
  | unknownHome (home : UnknownHome)

namespace Rejection

/-- Both of two reasons. -/
def and : Rejection → Rejection → Rejection
  | .unknownHome home, _ => .unknownHome home
  | _, .unknownHome home => .unknownHome home
  | .violations v, .violations w => .violations (v ++ w)

/-- The reason seen from one level further up. -/
def within (name : String) : Rejection → Rejection
  | .unknownHome home => .unknownHome home
  | .violations all => .violations (all.map (Violation.within name))

end Rejection

/-- A checked value, or everything that is wrong with it. -/
abbrev Checked (α : Type) := Except Rejection α

namespace Checked

/-- Two checks of which both are made, whatever the first one finds. -/
def both {α β : Type} : Checked α → Checked β → Checked (α × β)
  | .ok a, .ok b => .ok (a, b)
  | .error v, .ok _ => .error v
  | .ok _, .error w => .error w
  | .error v, .error w => .error (v.and w)

/-- All checks of a list. -/
def all {α : Type} : List (Checked α) → Checked (List α)
  | [] => .ok []
  | check :: rest => (both check (all rest)).map fun (a, as) => a :: as

/-- A check seen from one level further up. -/
def within {α : Type} (name : String) (check : Checked α) : Checked α :=
  check.mapError (Rejection.within name)

/-- A value that breaks a rule. -/
def broken {α : Type} (rule message : String) (input : Value) : Checked α :=
  .error (.violations [⟨[], rule, message, input⟩])

end Checked

end TreeDiff
