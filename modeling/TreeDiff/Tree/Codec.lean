/-
# Syntax trees as JSON

A node is an object with its type and, unless they have their usual value, its text, whether it is
named, its two points, its field and its children.  Writing gives every member but an absent field
and an empty list of children.
-/
import TreeDiff.Json.Basic
import TreeDiff.Tree.Basic

namespace TreeDiff.Node

/-- Why a JSON value is no node. -/
inductive Fault where
  /-- A node is not an object. -/
  | notObject
  | missingType
  /-- A member has another kind of value than a node holds there. -/
  | illTyped (member : String)
  /-- A point is no pair of integers. -/
  | badPoint
  /-- The children are no sequence. -/
  | childrenNotSequence
deriving DecidableEq, Repr

/-- A point, written as a pair. -/
def pointOfJson : Json → Except Fault Point
  | .arr [.int row, .int column] => .ok ⟨row, column⟩
  | _ => .error .badPoint

/-- A member that holds a text. -/
def textMember (json : Json) (name : String) (usual : String) : Except Fault String :=
  match json.get? name with
  | none => .ok usual
  | some (.str s) => .ok s
  | some _ => .error (.illTyped name)

/-- All members of a node but its children. -/
def leafOfJson (json : Json) : Except Fault Node := do
  let type ← match json.get? "type" with
    | none => throw .missingType
    | some (.str s) => pure s
    | some _ => throw (.illTyped "type")
  let text ← textMember json "text" ""
  let named ← match json.get? "named" with
    | none => pure true
    | some (.bool b) => pure b
    | some _ => throw (.illTyped "named")
  let startJson := (json.get? "start").getD (.arr [.int 0, .int 0])
  let start ← pointOfJson startJson
  let stop ← pointOfJson ((json.get? "end").getD startJson)
  let field ← match json.get? "field" with
    | none => pure none
    | some .null => pure none
    | some (.str s) => pure (some s)
    | some _ => throw (.illTyped "field")
  pure ⟨type, text, named, start, stop, field, []⟩

mutual

/-- The node that a JSON value describes. -/
def ofJson : Json → Except Fault Node
  | .obj members => do
    let leaf ← leafOfJson (.obj members)
    let children ← childrenOfMembers members
    pure { leaf with children }
  | _ => .error .notObject

/-- The children among the members of a node. -/
def childrenOfMembers : List (String × Json) → Except Fault (List Node)
  | [] => .ok []
  | (name, value) :: rest =>
    if name = "children" then childrenOfJson value else childrenOfMembers rest

/-- The children that a member describes.  A text and an object are sequences too, though never of
nodes. -/
def childrenOfJson : Json → Except Fault (List Node)
  | .arr items => ofJsons items
  | .str s => if s.isEmpty then .ok [] else .error .notObject
  | .obj members => if members.isEmpty then .ok [] else .error .notObject
  | _ => .error .childrenNotSequence

/-- The nodes that a row of JSON values describes. -/
def ofJsons : List Json → Except Fault (List Node)
  | [] => .ok []
  | item :: items => do
    let node ← ofJson item
    let nodes ← ofJsons items
    pure (node :: nodes)

end

/-- A point as a pair. -/
def pointToJson (p : Point) : Json := .arr [.int p.row, .int p.column]

mutual

/-- The node as JSON. -/
def toJson : Node → Json
  | ⟨type, text, named, start, stop, field, children⟩ =>
    .obj ([("type", .str type), ("text", .str text), ("named", .bool named),
        ("start", pointToJson start), ("end", pointToJson stop)] ++
      (match field with
        | some name => [("field", Json.str name)]
        | none => []) ++
      (match toJsons children with
        | [] => []
        | items => [("children", Json.arr items)]))

/-- A row of nodes as JSON. -/
def toJsons : List Node → List Json
  | [] => []
  | node :: rest => toJson node :: toJsons rest

end

end TreeDiff.Node
