/-
# Matching two outlines

The roots are joined.  Below joined entries the children are linked in place, and so on downwards.
Then what is left and has an identifier is matched anywhere: the same identifier below other parents
is a move, a similar text with another identifier a move with a rename.  The nearest to the roots
come first, and below each new link the children are linked in place again before the next candidate
is considered.
-/
import TreeDiff.Diff.Pairing

namespace TreeDiff

mutual

/-- Links what lies below two joined entries. -/
def linkBelow (threshold : Binary64) : Entry → Entry → Links → Links
  | old@⟨_, _, _, _, _, _, children⟩, new, links =>
    let made := linkChildren threshold links old new
    linkBelowEach threshold made children (links.joinAll made)

/-- Links what lies below those children of an old entry that were given a link. -/
def linkBelowEach (threshold : Binary64) (made : List Link) : List Entry → Links → Links
  | [], links => links
  | child :: rest, links =>
    match made.find? fun link => link.old.seq = child.seq with
    | some link => linkBelowEach threshold made rest (linkBelow threshold child link.new links)
    | none => linkBelowEach threshold made rest links

end

/-- A pair of entries that may be joined anywhere in the trees. -/
structure MoveCandidate extends Candidate where
  /-- Whether the identifiers are equal. -/
  sameName : Bool

namespace MoveCandidate

/-- The order of candidates anywhere in the trees. -/
def key (c : MoveCandidate) : List Int :=
  [min c.old.depth c.new.depth, if c.sameName then 0 else 1, c.scoreKey,
   Candidate.distance c.old.depth c.new.depth, Candidate.distance c.old.ordinal c.new.ordinal,
   min c.old.seq c.new.seq, max c.old.seq c.new.seq]

/-- The link that joining the entries makes. -/
def link (c : MoveCandidate) : Link := ⟨c.old, c.new, if c.sameName then .moved else .similarMoved⟩

end MoveCandidate

/-- The candidate that two entries make, if they have the same identifier or are similar. -/
def moveCandidate? (threshold : Binary64) (old new : Entry) : Option MoveCandidate :=
  if old.identifier = new.identifier then some ⟨⟨old, new, .one⟩, true⟩
  else
    let score := old.similarity threshold new
    if reaches threshold score then some ⟨⟨old, new, score⟩, false⟩ else none

/-- All candidates among the entries without a link that have an identifier, in order. -/
def moveCandidates (threshold : Binary64) (links : Links) (old new : Entry) : List MoveCandidate :=
  let olds := old.preorder.filter fun e => links.freeOld e && e.isIdentified
  let news := new.preorder.filter fun e => links.freeNew e && e.isIdentified
  let found := (typesOf olds).flatMap fun type =>
    (ofType type olds).flatMap fun o => (ofType type news).filterMap (moveCandidate? threshold o)
  found.mergeSort fun c d => lexNotAfter c.key d.key

/-- Joins a candidate whose entries are both free, and links what lies below it. -/
def acceptMove (threshold : Binary64) (links : Links) (c : MoveCandidate) : Links :=
  if links.freeOld c.old && links.freeNew c.new then
    linkBelow threshold c.old c.new (c.link :: links)
  else links

/-- Links what is left anywhere in the trees. -/
def linkMoves (threshold : Binary64) (old new : Entry) (links : Links) : Links :=
  (moveCandidates threshold links old new).foldl (acceptMove threshold) links

/-- The links in place between two trees. -/
def linkInPlace (threshold : Binary64) (old new : Entry) : Links :=
  linkBelow threshold old new [⟨old, new, .exact⟩]

/-- All links between two trees. -/
def linkTrees (threshold : Binary64) (old new : Entry) : Links :=
  linkMoves threshold old new (linkInPlace threshold old new)

end TreeDiff
