/-
# Changing parts of JSON values
-/
import TreeDiff.Json.Basic

namespace TreeDiff.Json

mutual

/-- A value with its names and its scalars changed. -/
def map (rename : String → String) (scalar : Json → Json) : Json → Json
  | .arr items => .arr (mapItems rename scalar items)
  | .obj members => .obj (mapMembers rename scalar members)
  | json => scalar json

/-- Items with their names and scalars changed. -/
def mapItems (rename : String → String) (scalar : Json → Json) : List Json → List Json
  | [] => []
  | json :: rest => map rename scalar json :: mapItems rename scalar rest

/-- Members with their names and scalars changed. -/
def mapMembers (rename : String → String) (scalar : Json → Json) :
    List (String × Json) → List (String × Json)
  | [] => []
  | (name, json) :: rest => (rename name, map rename scalar json) :: mapMembers rename scalar rest

end

/-- A value with every text in it changed. -/
def mapTexts (f : String → String) (json : Json) : Json :=
  let text : Json → Json
    | .str s => .str (f s)
    | json => json
  map f text json

/-- A value with every number that is no integer written in another way. -/
def mapFloats (f : Binary64 → Json) (json : Json) : Json :=
  let number : Json → Json
    | .float x => f x
    | json => json
  map id number json

end TreeDiff.Json
