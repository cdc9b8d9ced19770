/-
# Links

The state of a matching: the pairs of an old and a new entry that were joined so far.  A pair is
never taken apart again.
-/
import TreeDiff.Diff.Entry

namespace TreeDiff

/-- How two entries came to be joined. -/
inductive LinkKind where
  /-- By their keys, below joined parents. -/
  | exact
  /-- By similar text, below joined parents. -/
  | similar
  /-- By their identifier, anywhere. -/
  | moved
  /-- By similar text, anywhere. -/
  | similarMoved
deriving DecidableEq, Repr

/-- An old and a new entry that were joined. -/
structure Link where
  old : Entry
  new : Entry
  kind : LinkKind

/-- The links made so far, the latest first. -/
abbrev Links := List Link

namespace Links

/-- The link of an old entry. -/
def ofOld? (links : Links) (e : Entry) : Option Link :=
  links.find? fun link => link.old.seq = e.seq

/-- The link of a new entry. -/
def ofNew? (links : Links) (e : Entry) : Option Link :=
  links.find? fun link => link.new.seq = e.seq

/-- Whether an old entry has no link. -/
def freeOld (links : Links) (e : Entry) : Bool := (links.ofOld? e).isNone

/-- Whether a new entry has no link. -/
def freeNew (links : Links) (e : Entry) : Bool := (links.ofNew? e).isNone

/-- Add one link after another. -/
def joinAll (links : Links) (more : List Link) : Links := more.foldl (fun ls link => link :: ls) links

end Links

end TreeDiff
