/-
# Values as JSON

Values that JSON does not have become the text that shows them.
-/
import TreeDiff.Value.Shown

namespace TreeDiff.Value

mutual

/-- The value as JSON. -/
def toJson : Value → Json
  | .null => .null
  | .bool b => .bool b
  | .int n => .int n
  | .float x => .float x
  | .list items => .arr (toJsonItems items)
  | .map entries => .obj (toJsonEntries entries)
  | v => .str v.display

/-- The items of a list as JSON. -/
def toJsonItems : List Value → List Json
  | [] => []
  | v :: rest => toJson v :: toJsonItems rest

/-- The entries of a map as JSON. -/
def toJsonEntries : List (Value × Value) → List (String × Json)
  | [] => []
  | (key, v) :: rest => (key.display, toJson v) :: toJsonEntries rest

end

end TreeDiff.Value
