/-
# From links to changes

Linked entries are a rename when they were joined by similar text and their identifiers differ, a
move when they were joined anywhere and their breadcrumbs differ, and a modification when their
intents differ.  An entry without a link is reported as removed or added if its parent has a link:
what lies below it goes with it.
-/
import TreeDiff.Diff.Change
import TreeDiff.Diff.Matching

namespace TreeDiff

/-- How trees are compared: the schema of their grammar, the least similarity of a rename, and how
many characters of a text are shown. -/
structure Differ where
  schema : Schema
  threshold : Binary64
  truncateLength : Int

namespace Differ

/-- The least similarity of a rename, unless another is set: the number nearest to six tenths. -/
def usualThreshold : Binary64 := .ofRatio false 6 10

/-- How many characters of a text are shown, unless another number is set. -/
def usualTruncateLength : Int := 100

/-- The usual comparison. -/
def usual (schema : Schema) : Differ := ⟨schema, usualThreshold, usualTruncateLength⟩

end Differ

/-- The kind of change that a link stands for. -/
def Link.change? (link : Link) : Option ChangeKind :=
  let joinedBySimilarity := link.kind = .similar || link.kind = .similarMoved
  let joinedAnywhere := link.kind = .moved || link.kind = .similarMoved
  if joinedBySimilarity && link.old.identifier ≠ link.new.identifier then some .rename
  else if joinedAnywhere && link.old.path ≠ link.new.path then some .move
  else if link.old.outline.intents ≠ link.new.outline.intents then some .modify
  else none

/-- The change of two linked entries. -/
def changed (limit : Option Int) (kind : ChangeKind) (old new : Entry) : Change :=
  { kind, nodeType := old.type, path := old.path,
    oldIdentity := old.identifier, newIdentity := new.identifier,
    oldValue := some (Text.truncate old.outline.text limit),
    newValue := some (Text.truncate new.outline.text limit),
    oldPath := some old.path, newPath := some new.path,
    start := old.outline.start, stop := old.outline.stop }

/-- The change of an old entry without a link. -/
def removed (limit : Option Int) (old : Entry) : Change :=
  { kind := .remove, nodeType := old.type, path := old.path,
    oldIdentity := old.identifier, newIdentity := none,
    oldValue := some (Text.truncate old.outline.text limit), newValue := none,
    oldPath := some old.path, newPath := none,
    start := old.outline.start, stop := old.outline.stop }

/-- The change of a new entry without a link. -/
def added (limit : Option Int) (new : Entry) : Change :=
  { kind := .add, nodeType := new.type, path := new.path,
    oldIdentity := none, newIdentity := new.identifier,
    oldValue := none, newValue := some (Text.truncate new.outline.text limit),
    oldPath := none, newPath := some new.path,
    start := new.outline.start, stop := new.outline.stop }

/-- Whether some link joins the old entry with a number. -/
def Links.joinsOld (links : Links) (seq : Nat) : Bool := links.any fun link => link.old.seq == seq

/-- Whether some link joins the new entry with a number. -/
def Links.joinsNew (links : Links) (seq : Nat) : Bool := links.any fun link => link.new.seq == seq

/-- What is reported of an old entry. -/
def oldChange? (limit : Option Int) (links : Links) (old : Entry) : Option Change :=
  match links.ofOld? old with
  | some link => link.change?.map fun kind => changed limit kind old link.new
  | none => if old.parent.any links.joinsOld then some (removed limit old) else none

/-- What is reported of a new entry. -/
def newChange? (limit : Option Int) (links : Links) (new : Entry) : Option Change :=
  match links.ofNew? new with
  | some _ => none
  | none => if new.parent.any links.joinsNew then some (added limit new) else none

/-- The changes between two trees: those of the old entries, then those of the new ones, each in
document order.  The roots are never reported. -/
def classify (limit : Option Int) (links : Links) (old new : Entry) : List Change :=
  old.preorder.tail.filterMap (oldChange? limit links) ++
    new.preorder.tail.filterMap (newChange? limit links)

namespace Differ

/-- How many characters of a text are shown in a comparison. -/
def limit (d : Differ) (fullText : Bool) : Option Int :=
  if fullText then none else some d.truncateLength

/-- Compare two outlines. -/
def diffOutlines (d : Differ) (fullText : Bool) (old new : Outline) : Diff :=
  let oldRoot := Entry.root old
  let newRoot := Entry.root new
  let links := linkTrees d.threshold oldRoot newRoot
  ⟨(classify (d.limit fullText) links oldRoot newRoot).mergeSort Change.notAfter⟩

/-- Compare two trees, each of which may lack a root. -/
def diff (d : Differ) (fullText : Bool) (old new : Option Node) : Except Report Diff :=
  match old, new with
  | none, _ => .error (.noRoot "diff" "old")
  | some _, none => .error (.noRoot "diff" "new")
  | some old, some new =>
    .ok (d.diffOutlines fullText (.ofNode d.schema old) (.ofNode d.schema new))

/-- The component that compares trees. -/
def logger : String := "loraxmod.diff.engine"

/-- What is logged when a tree has no root. -/
def noRootEvents (d : Differ) (tree : String) : List Log.Event :=
  [⟨logger, .error, "diff_no_root", [("tree", .str tree), ("source", .ofOption d.schema.source)]⟩]

/-- What is logged when two trees are compared. -/
def events (d : Differ) (fullText : Bool) (old new : Option Node) : List Log.Event :=
  match old, new with
  | none, _ => d.noRootEvents "old"
  | some _, none => d.noRootEvents "new"
  | some old, some new =>
    let old := Outline.ofNode d.schema old
    let new := Outline.ofNode d.schema new
    let result := d.diffOutlines fullText old new
    old.events d.schema ++ new.events d.schema ++
      [⟨logger, .info, "diff_complete",
        [("old_nodes", .nat old.size), ("new_nodes", .nat new.size)] ++
          result.summary.map fun (kind, n) => (kind.word, .nat n)⟩]

end Differ

end TreeDiff
