/-
# Merging in layers

A map laid over another keeps the entries of the lower one that it does not mention.  Where both
have a map under a key, the two are merged in turn; everything else in the upper layer wins.
-/
import TreeDiff.Value.Basic

namespace TreeDiff.Value

/-- The value under a key. -/
def find? (key : Value) : List (Value × Value) → Option Value
  | [] => none
  | (k, v) :: rest => if sameKey k key then some v else find? key rest

mutual

/-- One value laid over another. -/
def laidOver : Value → Value → Value
  | .map upper, .map lower => .map (mergeEntries lower upper)
  | upper, _ => upper

/-- Entries laid over others: the keys of the lower layer come first, in their order. -/
def mergeEntries (lower : List (Value × Value)) : List (Value × Value) → List (Value × Value)
  | [] => lower
  | (key, value) :: rest =>
    let merged := match find? key lower with
      | some below => laidOver value below
      | none => value
    mergeEntries (put key merged lower) rest

end

end TreeDiff.Value
