/-
# How similar two texts are

The longest block that two texts share is matched first, then the parts before it and the parts
after it are compared in the same way.  The similarity of the texts is the share of their
characters that lies in matched blocks.  It is kept as an exact quotient.

The blocks found depend on the order of the two texts, so the texts are put in order first; the
similarity is then the same both ways.  Two cheap upper bounds allow to stop early when only
similarities that pass a cutoff are of interest.
-/
import TreeDiff.Text.Order

namespace TreeDiff.Text

/-- A common block: where it starts in each of two texts, and its length. -/
structure Block where
  left : Nat
  right : Nat
  size : Nat
deriving DecidableEq, Repr

/-- The lengths of the common blocks that end at one character of the left text and at each
character of the right text, from the lengths for the character before it.  `corner` is the length
for the characters before both. -/
def blockRow (c : Char) : Nat → List Char → List Nat → List Nat
  | _, [], _ => []
  | corner, d :: right, above =>
    let next := above.headD 0
    (if c = d then corner + 1 else 0) :: blockRow c next right above.tail

/-- The best block so far, after the blocks that end at position `i` of the left text are known. A
later block wins only if it is longer, so the longest block that starts earliest is found. -/
def bestInRow (i : Nat) : Nat → List Nat → Block → Block
  | _, [], best => best
  | j, size :: row, best =>
    bestInRow i (j + 1) row
      (if best.size < size then ⟨i + 1 - size, j + 1 - size, size⟩ else best)

/-- The best block over all positions of the left text from `i` on. -/
def bestBlockFrom (right : List Char) : Nat → List Char → List Nat → Block → Block
  | _, [], _, best => best
  | i, c :: left, above, best =>
    let row := blockRow c 0 right above
    bestBlockFrom right (i + 1) left row (bestInRow i 0 row best)

/-- The longest common block of two texts, the earliest in the left text and then in the right text
among those of the same length; of size 0 when no character is shared. -/
def longestBlock (left right : List Char) : Block :=
  bestBlockFrom right 0 left (List.replicate right.length 0) ⟨0, 0, 0⟩

/-- How many characters lie in matched blocks.  Every block takes characters of the left text away,
so its length bounds the depth of the recursion. -/
def matchedWithin : Nat → List Char → List Char → Nat
  | 0, _, _ => 0
  | depth + 1, left, right =>
    let block := longestBlock left right
    if block.size = 0 then 0
    else
      matchedWithin depth (left.take block.left) (right.take block.right) + block.size +
        matchedWithin depth (left.drop (block.left + block.size))
          (right.drop (block.right + block.size))

/-- How many characters of two texts lie in matched blocks. -/
def matchedCount (left right : List Char) : Nat := matchedWithin left.length left right

/-- How many characters two texts have in common, each as often as in the text that has it less
often. -/
def sharedCount : List Char → List Char → Nat
  | [], _ => 0
  | c :: left, right =>
    if right.contains c then sharedCount left (right.erase c) + 1 else sharedCount left right

/-- An exact quotient of natural numbers. -/
structure Ratio where
  num : Nat
  den : Nat
deriving DecidableEq, Repr

namespace Ratio

/-- Nothing in common. -/
def zero : Ratio := ⟨0, 1⟩

/-- Equal texts. -/
def one : Ratio := ⟨1, 1⟩

end Ratio

/-- The share of the characters of two texts that `count` pairs of them make up. -/
def share (count : Nat) (left right : List Char) : Ratio :=
  ⟨2 * count, left.length + right.length⟩

/-- The similarity of two different texts that are not empty, given in order: zero if the shorter
length or the shared characters alone show that it does not pass the cutoff. -/
def orderedSimilarity (passes : Ratio → Bool) (left right : List Char) : Ratio :=
  if !passes (share (min left.length right.length) left right) then .zero
  else if !passes (share (sharedCount left right) left right) then .zero
  else share (matchedCount left right) left right

/-- The similarity of two texts; zero may stand for one that does not pass the cutoff. -/
def similarity (passes : Ratio → Bool) (a b : String) : Ratio :=
  if a = b then .one
  else if a.isEmpty || b.isEmpty then .zero
  else if before b a then orderedSimilarity passes b.toList a.toList
  else orderedSimilarity passes a.toList b.toList

end TreeDiff.Text
