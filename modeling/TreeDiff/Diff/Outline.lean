/-
# Outlines

The outline of a syntax tree is the tree of its named nodes, each with its intents.  Anonymous nodes
are looked through, so a named node below them belongs to the nearest named node above.  Two trees
are compared by their outlines alone.
-/
import TreeDiff.Extraction

namespace TreeDiff

/-- A named node of a syntax tree with the named nodes below it. -/
structure Outline where
  type : String
  intents : Intents
  text : String
  start : Point
  stop : Point
  children : List Outline

namespace Outline

/-- The outline of a node, given the outlines below it. -/
def summary (schema : Schema) (node : Node) (children : List Outline) : Outline :=
  ⟨node.type, node.intents schema, node.text, node.start, node.stop, children⟩

mutual

/-- The outlines at the top of a tree: of its root if that is named, or else of the named nodes
right below it. -/
def top (schema : Schema) : Node → List Outline
  | node@⟨_, _, named, _, _, _, children⟩ =>
    let below := forest schema children
    if named then [summary schema node below] else below

/-- The outlines at the top of a row of trees. -/
def forest (schema : Schema) : List Node → List Outline
  | [] => []
  | node :: rest => top schema node ++ forest schema rest

end

/-- The outline of a tree; its root counts as named. -/
def ofNode (schema : Schema) (root : Node) : Outline :=
  summary schema root (forest schema root.children)

/-- The text of the identifier. -/
def identifier (o : Outline) : Option String := o.intents.lookup .identifier

/-- What a node is called in breadcrumbs: its identifier, or else its type. -/
def label (o : Outline) : String := o.identifier.getD o.type

/-- The text by which a node is compared with others: its body, or else all of it. -/
def comparedText (o : Outline) : String := (o.intents.lookup .body).getD o.text

mutual

/-- The number of nodes. -/
def size : Outline → Nat
  | ⟨_, _, _, _, _, children⟩ => sizeAll children + 1

/-- The number of nodes of a row of outlines. -/
def sizeAll : List Outline → Nat
  | [] => 0
  | o :: rest => size o + sizeAll rest

end

mutual

/-- The nodes of an outline in document order. -/
def preorder : Outline → List Outline
  | o@⟨_, _, _, _, _, children⟩ => o :: preorderAll children

/-- The nodes of a row of outlines in document order. -/
def preorderAll : List Outline → List Outline
  | [] => []
  | o :: rest => preorder o ++ preorderAll rest

end

/-- The order in which the intents of the nodes are read: the root, then the children of each node
in document order. -/
def readingOrder (o : Outline) : List Outline := o :: o.preorder.flatMap (·.children)

/-- What is logged when an outline is made: each node whose type is not defined. -/
def events (schema : Schema) (o : Outline) : List Log.Event :=
  o.readingOrder.flatMap fun node =>
    if schema.contains node.type then []
    else [⟨Extractor.logger, .debug, "unknown_node_type",
      [("node_type", .str node.type), ("source", .ofOption schema.source)]⟩]

end Outline

end TreeDiff
