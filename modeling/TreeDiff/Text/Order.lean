/-
# The order of texts

Texts are compared by code point at the first place where they differ; a text comes after each of
its proper beginnings.
-/

namespace TreeDiff.Text

/-- Whether one sequence of characters comes before another. -/
def charsBefore : List Char → List Char → Bool
  | _, [] => false
  | [], _ :: _ => true
  | c :: cs, d :: ds => c.toNat < d.toNat || (c.toNat == d.toNat && charsBefore cs ds)

/-- Whether one text comes before another. -/
def before (a b : String) : Bool := charsBefore a.toList b.toList

/-- Whether one text comes before another or equals it. -/
def notAfter (a b : String) : Bool := !before b a

/-- Texts in order, equal ones kept as often as they occur. -/
def sorted (texts : List String) : List String := texts.mergeSort notAfter

end TreeDiff.Text
