/-
# Checking single settings

A setting accepts the values of its kind, and what passes for one.  Some settings have a rule of
their own beyond that.
-/
import TreeDiff.Number.Shortest
import TreeDiff.Settings.Basic
import TreeDiff.Settings.Coercion
import TreeDiff.Settings.Violation

namespace TreeDiff.Check

/-- What a value passes for, if it does. -/
def coerced {α : Type} (coercion : Value → Except Complaint α) (v : Value) : Checked α :=
  match coercion v with
  | .ok a => .ok a
  | .error complaint => .broken complaint.rule complaint.message v

/-- A value or null. -/
def optional {α : Type} (check : Value → Checked α) : Value → Checked (Option α)
  | .null => .ok none
  | v => (check v).map some

/-- A value that keeps a rule of its setting. -/
def satisfying {α : Type} (rule : α → Bool) (reason : α → String) (check : Value → Checked α)
    (v : Value) : Checked α := do
  let a ← check v
  if rule a then pure a else Checked.broken "value_error" s!"Value error, {reason a}" v

/-- The file of a destination. -/
def destinationFile (homes : Homes) (s : String) (v : Value) : Checked Destination :=
  match (Path.ofText s).expandHome homes with
  | .error home => .error (.unknownHome home)
  | .ok p =>
    if p.isAbsolute then .ok (.file p)
    else .broken "value_error" s!"Value error, File destination must be absolute path: {s}" v

section

variable [Coercions]

/-- Any text. -/
def text : Value → Checked String := coerced Coercions.text

/-- A truth value. -/
def truth : Value → Checked Bool := coerced Coercions.truth

/-- An integer. -/
def integer : Value → Checked Int := coerced Coercions.integer

/-- A number. -/
def number : Value → Checked Binary64 := coerced Coercions.number

/-- A path. -/
def path (v : Value) : Checked Path := (coerced Coercions.path v).map Path.ofText

/-- One of some named values. -/
def oneOf {α : Type} (name : α → String) (choices : List α) (v : Value) : Checked α :=
  (coerced (Coercions.choice (choices.map name)) v).map fun i =>
    choices.get (i.cast (List.length_map name))

/-- A level of log events. -/
def level : Value → Checked Log.Level := oneOf Log.Level.name Log.Level.all

/-- A list, each item checked under its position. -/
def list {α : Type} (check : Value → Checked α) (v : Value) : Checked (List α) := do
  let items ← coerced Coercions.items v
  Checked.all <| items.zipIdx.map fun (item, position) => (check item).within (toString position)

/-- A similarity from zero to one. -/
def threshold : Value → Checked Binary64 :=
  satisfying (fun x => Binary64.zero.le x && x.le .one)
    (fun x => s!"Similarity threshold must be 0.0-1.0, got {x.toText}") number

/-- A length that is not zero. -/
def positive : Value → Checked Int :=
  satisfying (fun n => 1 ≤ n) (fun n => s!"Truncate length must be positive, got {n}") integer

/-- A destination of log events: a stream by its name, or a file by a path from the root. -/
def destination (homes : Homes) (v : Value) : Checked Destination := do
  let s ← text v
  if s = "stderr" then pure .stderr
  else if s = "stdout" then pure .stdout
  else destinationFile homes s v

end

end TreeDiff.Check
