/-
# The table of a comparison

One row per change and a last row that counts them.  Cells are console markup: the kind of a change
stands between style tags.
-/
import TreeDiff.Diff.Change

namespace TreeDiff

/-- A row of a table. -/
structure TableRow where
  cells : List String
  /-- The style of the whole row. -/
  style : Option String
deriving DecidableEq, Repr

/-- A table with its column titles. -/
structure Table where
  titles : List String
  rows : List TableRow
deriving DecidableEq, Repr

/-- The style in which a kind of change is shown. -/
def ChangeKind.style : ChangeKind → String
  | .add => "green"
  | .remove => "red"
  | .rename => "cyan"
  | .move => "magenta"
  | .modify => "yellow"

namespace Change

/-- Who a change is about: both identifiers if they differ, or else the one that is there. -/
def identity (c : Change) : String :=
  match c.oldIdentity, c.newIdentity with
  | some old, some new => if old ≠ new then s!"{old} -> {new}" else old
  | some old, none => old
  | none, some new => new
  | none, none => ""

/-- What stands for the path of a node right below the root. -/
def topLevel : String := "(top level)"

/-- The path of a change as it is shown. -/
def shownPath (c : Change) : String := if c.path.isEmpty then topLevel else c.path

/-- The row of a change. -/
def row (c : Change) : TableRow :=
  ⟨[s!"[{c.kind.style}]{c.kind.name}[/{c.kind.style}]", c.nodeType, c.identity, c.shownPath], none⟩

end Change

namespace Diff

/-- How many changes of which kinds there are, on one line. -/
def countLine (d : Diff) : String :=
  let parts := d.summary.filterMap fun (kind, n) =>
    if n = 0 then none else some s!"{n} {kind.name}"
  if parts.isEmpty then "no changes" else ", ".intercalate parts

/-- The table of a comparison. -/
def table (d : Diff) : Table :=
  ⟨["change", "node type", "identity", "path"],
    d.changes.map Change.row ++ [⟨["", "", "", d.countLine], some "dim"⟩]⟩

end Diff

end TreeDiff
