/-
# Extraction

What a node says about its intents: the text of the child that each bound intent leads to.  A node
type that the schema does not define says nothing, and so does a field that is not filled; neither
is an error.
-/
import TreeDiff.Intent
import TreeDiff.Report
import TreeDiff.Text.Truncate
import TreeDiff.Tree.Basic

namespace TreeDiff

/-- The texts of the intents of a node, in the order of the intents. -/
abbrev Intents := List (Intent × String)

namespace Node

/-- The child that a binding leads to. -/
def boundChild (node : Node) : Binding → Option Node
  | .field name => node.childForField name
  | .positional type => node.children.find? fun child => child.named && child.type = type

/-- The intents of a node with their texts. -/
def intents (schema : Schema) (node : Node) : Intents :=
  (schema.bindings node.type).filterMap fun (intent, binding) =>
    (node.boundChild binding).map fun child => (intent, child.text)

end Node

/-- A node as extraction shows it. -/
structure ExtractedNode where
  nodeType : String
  start : Point
  stop : Point
  /-- The source text, cut if a limit is set. -/
  text : String
  intents : Intents
deriving DecidableEq, Repr

namespace ExtractedNode

/-- The first line of the node, counted from 1. -/
def startLine (n : ExtractedNode) : Int := n.start.row + 1

/-- The last line of the node, counted from 1. -/
def stopLine (n : ExtractedNode) : Int := n.stop.row + 1

/-- The text of the identifier. -/
def identifier (n : ExtractedNode) : Option String := n.intents.lookup .identifier

/-- The texts of the intents by name. -/
def intentMembers (n : ExtractedNode) : List (String × Json) :=
  n.intents.map fun (intent, text) => (intent.name, .str text)

/-- The node as JSON. -/
def members (n : ExtractedNode) : List (String × Json) :=
  [("node_type", .str n.nodeType), ("start_line", .int n.startLine), ("end_line", .int n.stopLine),
   ("text", .str n.text), ("extractions", .obj n.intentMembers)]

end ExtractedNode

/-- How nodes are extracted: the schema of their grammar, and a limit for their texts.  The texts of
intents are never cut. -/
structure Extractor where
  schema : Schema
  limit : Option Int

namespace Extractor

/-- The component that extracts. -/
def logger : String := "loraxmod.extraction.engine"

/-- One node. -/
def extract (x : Extractor) (node : Node) : ExtractedNode :=
  ⟨node.type, node.start, node.stop, Text.truncate node.text x.limit, node.intents x.schema⟩

/-- The named nodes of a tree in document order. -/
def namedNodes (root : Node) : List Node := root.walk.filter (·.named)

/-- The named nodes of a tree, extracted in document order. -/
def extractAll (x : Extractor) (root : Node) : List ExtractedNode := (namedNodes root).map x.extract

/-- The nodes of a tree whose type is among the given ones, in document order. -/
def nodesByType (root : Node) (types : List String) : List Node :=
  root.walk.filter fun node => types.contains node.type

/-- The nodes of a tree whose type is among the given ones, extracted in document order. -/
def extractByType (x : Extractor) (root : Node) (types : List String) : List ExtractedNode :=
  (nodesByType root types).map x.extract

/-- What is logged when the intents of a node are read: that its type is not defined. -/
def nodeEvents (schema : Schema) (node : Node) : List Log.Event :=
  if schema.contains node.type then []
  else [⟨logger, .debug, "unknown_node_type",
    [("node_type", .str node.type), ("source", .ofOption schema.source)]⟩]

/-- What is logged when the intents of several nodes are read. -/
def nodesEvents (schema : Schema) (nodes : List Node) : List Log.Event :=
  nodes.flatMap (nodeEvents schema)

/-- What is logged when a tree without a root is to be extracted. -/
def noRootEvents (schema : Schema) (operation : String) : List Log.Event :=
  [⟨logger, .error, "extract_no_root",
    [("operation", .str operation), ("source", .ofOption schema.source)]⟩]

end Extractor

end TreeDiff
