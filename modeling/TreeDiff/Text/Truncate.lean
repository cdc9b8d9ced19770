/-
# Cutting texts

A text longer than a limit is cut there and a marker shows the cut.  A negative limit counts from
the end of the text.
-/

namespace TreeDiff.Text

/-- What stands at the end of a text that was cut. -/
def cutMarker : String := "..."

/-- The first `limit` items of a list; a negative limit leaves that many out at the end. -/
def takeSigned {α : Type} (limit : Int) (items : List α) : List α :=
  match limit with
  | .ofNat n => items.take n
  | .negSucc n => items.take (items.length - (n + 1))

/-- The text up to `limit` characters, followed by the marker if something was left out. -/
def truncate (text : String) : Option Int → String
  | none => text
  | some limit =>
    if (text.length : Int) ≤ limit then text
    else String.ofList (takeSigned limit text.toList) ++ cutMarker

end TreeDiff.Text
