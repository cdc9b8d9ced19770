/-
# Pairing entries

Two rules choose pairs among old and new entries of one type.  Siblings below joined parents are
first paired by their keys, in document order; what is left and has an identifier is paired by the
similarity of its text, the best pair first.  Among pairs of equal similarity the one closest in
order comes first, and then the one that stands earliest; the rule does not tell old from new.
-/
import TreeDiff.Diff.Links
import TreeDiff.Number.Binary64
import TreeDiff.Text.Similarity

namespace TreeDiff

/-- Whether one list of numbers comes before another or equals it, by the first place at which they
differ. -/
def lexNotAfter : List Int → List Int → Bool
  | [], _ => true
  | _ :: _, [] => false
  | a :: as, b :: bs => a < b || (a == b && lexNotAfter as bs)

/-- A similarity as a number. -/
def Text.Ratio.toBinary64 (r : Text.Ratio) : Binary64 := .ofRatio false r.num r.den

/-- Whether a similarity reaches a threshold. -/
def reaches (threshold : Binary64) (r : Text.Ratio) : Bool := threshold.le r.toBinary64

/-- The similarity of two entries; zero may stand for one below the threshold. -/
def Entry.similarity (threshold : Binary64) (old new : Entry) : Text.Ratio :=
  Text.similarity (reaches threshold) old.outline.comparedText new.outline.comparedText

/-- Two entries that may be joined, with their similarity. -/
structure Candidate where
  old : Entry
  new : Entry
  score : Text.Ratio

namespace Candidate

/-- The distance of two numbers. -/
def distance (a b : Nat) : Int := ((a : Int) - b).natAbs

/-- The similarity as a sort key: the greater, the earlier. -/
def scoreKey (c : Candidate) : Int := -(c.score.toBinary64.signedUnits?.getD 0)

/-- The order of candidates among siblings. -/
def siblingKey (c : Candidate) : List Int :=
  [c.scoreKey, distance c.old.ordinal c.new.ordinal, min c.old.seq c.new.seq,
   max c.old.seq c.new.seq]

/-- Whether two candidates share an entry. -/
def conflicts (c d : Candidate) : Bool := c.old.seq == d.old.seq || c.new.seq == d.new.seq

end Candidate

/-- The types of entries, each once, in the order of their first entry. -/
def typesOf (entries : List Entry) : List String := (entries.map (·.type)).eraseDups

/-- The entries of a type. -/
def ofType (type : String) (entries : List Entry) : List Entry := entries.filter (·.type = type)

/-- The first item with a property, and the other items. -/
def takeFirst? {α : Type} (p : α → Bool) : List α → Option (α × List α)
  | [] => none
  | a :: rest =>
    if p a then some (a, rest) else (takeFirst? p rest).map fun (b, others) => (b, a :: others)

/-- Pairs entries by their keys: each old entry takes the first new entry with its key that is still
there. -/
def pairByKey : List Entry → List Entry → List (Entry × Entry)
  | [], _ => []
  | old :: olds, news =>
    match takeFirst? (fun new : Entry => new.key = old.key) news with
    | some (new, rest) => (old, new) :: pairByKey olds rest
    | none => pairByKey olds news

/-- The pairs of entries whose similarity reaches the threshold. -/
def similarCandidates (threshold : Binary64) (olds news : List Entry) : List Candidate :=
  olds.flatMap fun old => news.filterMap fun new =>
    let score := old.similarity threshold new
    if reaches threshold score then some ⟨old, new, score⟩ else none

/-- The candidates that share no entry with one chosen before them. -/
def greedyFrom (chosen : List Candidate) : List Candidate → List Candidate
  | [] => []
  | c :: rest =>
    if chosen.any c.conflicts then greedyFrom chosen rest else c :: greedyFrom (c :: chosen) rest

/-- Pairs entries by similarity, the best pair first. -/
def pairSimilar (threshold : Binary64) (olds news : List Entry) : List Candidate :=
  greedyFrom [] ((similarCandidates threshold olds news).mergeSort fun c d =>
    lexNotAfter c.siblingKey d.siblingKey)

/-- The links between siblings of one type below joined parents. -/
def linkSiblings (threshold : Binary64) (olds news : List Entry) : List Link :=
  let exact := pairByKey olds news
  let oldRest := olds.filter fun e => e.isIdentified && !exact.any fun p => p.1.seq == e.seq
  let newRest := news.filter fun e => e.isIdentified && !exact.any fun p => p.2.seq == e.seq
  exact.map (fun (old, new) => ⟨old, new, .exact⟩) ++
    (pairSimilar threshold oldRest newRest).map fun c => ⟨c.old, c.new, .similar⟩

/-- The links that two joined entries give their children, those left out that have one. -/
def linkChildren (threshold : Binary64) (links : Links) (old new : Entry) : List Link :=
  let olds := old.children.filter links.freeOld
  let news := new.children.filter links.freeNew
  (typesOf olds).flatMap fun type => linkSiblings threshold (ofType type olds) (ofType type news)

end TreeDiff
