/-
# Changes

What a comparison of two trees reports: an ordered list of changes, with a count of each kind.
-/
import TreeDiff.Json.Basic
import TreeDiff.Text.Order
import TreeDiff.Tree.Basic

namespace TreeDiff

/-- What happened to a node. -/
inductive ChangeKind where
  | remove
  | rename
  | move
  | modify
  | add
deriving DecidableEq, Repr

namespace ChangeKind

/-- All kinds, in the order in which the changes at one place are reported. -/
def all : List ChangeKind := [remove, rename, move, modify, add]

/-- The rank of a kind in that order. -/
def priority : ChangeKind → Nat
  | remove => 0
  | rename => 1
  | move => 2
  | modify => 3
  | add => 4

/-- The name of a kind. -/
def name : ChangeKind → String
  | remove => "REMOVE"
  | rename => "RENAME"
  | move => "MOVE"
  | modify => "MODIFY"
  | add => "ADD"

/-- The name of a kind in log lines. -/
def word : ChangeKind → String
  | remove => "remove"
  | rename => "rename"
  | move => "move"
  | modify => "modify"
  | add => "add"

/-- The kind with a name. -/
def ofName? (name : String) : Option ChangeKind := all.find? fun kind => kind.name = name

end ChangeKind

/-- One change.  The path and the place are those of the node that anchors the change: the new node
of an addition, the old node of everything else. -/
structure Change where
  kind : ChangeKind
  nodeType : String
  path : String
  oldIdentity : Option String
  newIdentity : Option String
  oldValue : Option String
  newValue : Option String
  oldPath : Option String
  newPath : Option String
  start : Point
  stop : Point
deriving DecidableEq, Repr

namespace Change

/-- Whether the node lies below other nodes than before. -/
def isMoved (c : Change) : Bool :=
  match c.oldPath, c.newPath with
  | some old, some new => old ≠ new
  | _, _ => false

/-- Whether a change is reported before another or in the same place: by path, by kind, and by where
the node starts. -/
def notAfter (a b : Change) : Bool :=
  if a.path ≠ b.path then Text.before a.path b.path
  else if a.kind.priority ≠ b.kind.priority then a.kind.priority < b.kind.priority
  else if a.start.row ≠ b.start.row then a.start.row < b.start.row
  else a.start.column ≤ b.start.column

/-- The change as JSON; on request with both paths and the lines, counted from 1. -/
def toJson (withPlace : Bool) (c : Change) : Json :=
  .obj ([("type", .str c.kind.name), ("node_type", .str c.nodeType), ("path", .str c.path),
      ("old_identity", .ofOption c.oldIdentity), ("new_identity", .ofOption c.newIdentity),
      ("old_value", .ofOption c.oldValue), ("new_value", .ofOption c.newValue)] ++
    if withPlace then
      [("old_path", .ofOption c.oldPath), ("new_path", .ofOption c.newPath),
       ("start_line", .int (c.start.row + 1)), ("end_line", .int (c.stop.row + 1))]
    else [])

end Change

/-- The changes of a comparison, in order. -/
structure Diff where
  changes : List Change
deriving DecidableEq, Repr

namespace Diff

/-- The changes of one kind. -/
def ofKind (d : Diff) (kind : ChangeKind) : List Change := d.changes.filter (·.kind = kind)

/-- How many changes there are of one kind. -/
def count (d : Diff) (kind : ChangeKind) : Nat := (d.ofKind kind).length

/-- The number of changes of each kind, also of those that do not occur. -/
def summary (d : Diff) : List (ChangeKind × Nat) :=
  ChangeKind.all.map fun kind => (kind, d.count kind)

/-- The summary as JSON. -/
def summaryJson (d : Diff) : Json :=
  .obj (d.summary.map fun (kind, n) => (kind.name, .nat n))

/-- The comparison as JSON. -/
def toJson (withPlace : Bool) (d : Diff) : Json :=
  .obj [("changes", .arr (d.changes.map (Change.toJson withPlace))), ("summary", d.summaryJson)]

end Diff

end TreeDiff
