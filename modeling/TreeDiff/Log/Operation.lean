/-
# Extraction and comparison with their log

The operations on trees that may lack a root, with what they log.
-/
import TreeDiff.Diff.Classify
import TreeDiff.Extraction
import TreeDiff.Log.Logged

namespace TreeDiff

namespace Extractor

/-- The root that an operation needs. -/
def rootFor (x : Extractor) (operation : String) : Option Node → Logged Node
  | some root => .result root
  | none =>
    ⟨noRootEvents x.schema operation, .error (.reported (.noRoot operation "input"))⟩

/-- A node, extracted. -/
def logNode (x : Extractor) (node : Node) : Logged ExtractedNode :=
  ⟨nodeEvents x.schema node, .ok (x.extract node)⟩

/-- The root of a tree, extracted. -/
def logRoot (x : Extractor) (root : Option Node) : Logged ExtractedNode := do
  let node ← x.rootFor "extract_all" root
  x.logNode node

/-- The named nodes of a tree, extracted. -/
def logAll (x : Extractor) (root : Option Node) : Logged (List ExtractedNode) := do
  let node ← x.rootFor "extract_all" root
  ⟨nodesEvents x.schema (namedNodes node), .ok (x.extractAll node)⟩

/-- The nodes of a tree whose type is among the given ones, extracted. -/
def logByType (x : Extractor) (root : Option Node) (types : List String) :
    Logged (List ExtractedNode) := do
  let node ← x.rootFor "extract_by_type" root
  ⟨nodesEvents x.schema (nodesByType node types), .ok (x.extractByType node types)⟩

end Extractor

/-- The difference of two trees. -/
def Differ.logDiff (d : Differ) (fullText : Bool) (old new : Option Node) : Logged Diff :=
  ⟨d.events fullText old new, (d.diff fullText old new).mapError .reported⟩

end TreeDiff
