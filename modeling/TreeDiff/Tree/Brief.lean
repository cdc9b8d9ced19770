/-
# Nodes in brief

A node as it is listed: its type, its text, whether it is named, and where it starts and ends.
-/
import TreeDiff.Json.Basic
import TreeDiff.Text.Quoted
import TreeDiff.Tree.Basic

namespace TreeDiff

/-- Rows and columns of two points. -/
def spanJson (start stop : Point) : Json :=
  .arr [.int start.row, .int start.column, .int stop.row, .int stop.column]

namespace Node

/-- The members of a node in brief. -/
def briefMembers (node : Node) : List (String × Json) :=
  [("type", .str node.type), ("text", .str node.text), ("named", .bool node.named),
    ("span", spanJson node.start node.stop)]

/-- A node in brief. -/
def brief (node : Node) : Json := .obj node.briefMembers

mutual

/-- A node in brief with everything below it. -/
def deepBrief : Node → Json
  | ⟨type, text, named, start, stop, field, children⟩ =>
    .obj (briefMembers ⟨type, text, named, start, stop, field, []⟩ ++
      [("children", .arr (deepBriefs children))])

/-- Nodes in brief with everything below them. -/
def deepBriefs : List Node → List Json
  | [] => []
  | node :: rest => deepBrief node :: deepBriefs rest

end

/-- A node on one line. -/
def line (node : Node) : String :=
  s!"TreeSitterNode({Text.quoted node.type}, start=({node.start.row}, {node.start.column}))"

end Node

end TreeDiff
