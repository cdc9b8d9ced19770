/-
# Recorded trees

A recording holds the trees of some sources.  It can stand for the grammars of all languages: a
source that was recorded has the tree that was recorded for it, and any other source has none.  In a
recorded node the text is given by a range of bytes of the source.
-/
import TreeDiff.Json.Bytes
import TreeDiff.Parsing.Grammar
import TreeDiff.Tree.Codec

namespace TreeDiff

/-- Sources with the roots of their trees. -/
structure Recording where
  trees : List (List UInt8 × Option Node)

namespace Recording

/-- The text of a range of bytes; ill-formed parts are replaced. -/
def rangeText (source : List UInt8) : Json → String
  | .arr [.int first, .int last] =>
    Text.Utf8.decodeLossy ((source.take last.toNat).drop first.toNat)
  | _ => ""

/-- A point; a missing one is the start. -/
def point (json : Option Json) : Point :=
  match json with
  | some (.arr [.int row, .int column]) => ⟨row, column⟩
  | _ => ⟨0, 0⟩

/-- A recorded node without its children. -/
def leaf (source : List UInt8) (members : List (String × Json)) : Node :=
  let type := match members.lookup "type" with
    | some (.str s) => s
    | _ => ""
  let named := match members.lookup "named" with
    | some (.bool b) => b
    | _ => true
  let field := match members.lookup "field" with
    | some (.str s) => some s
    | _ => none
  let text := rangeText source ((members.lookup "bytes").getD .null)
  ⟨type, text, named, point (members.lookup "start"), point (members.lookup "end"), field, []⟩

mutual

/-- The nodes that a recorded node, or a row of them, stands for. -/
def nodes (source : List UInt8) : Json → List Node
  | .obj members => [{ leaf source members with children := children source members }]
  | .arr items => rows source items
  | _ => []

/-- The children among the members of a recorded node. -/
def children (source : List UInt8) : List (String × Json) → List Node
  | [] => []
  | (name, json) :: rest => if name = "children" then nodes source json else children source rest

/-- The nodes of a row. -/
def rows (source : List UInt8) : List Json → List Node
  | [] => []
  | json :: rest => nodes source json ++ rows source rest

end

/-- A recorded source with its root. -/
def entryOfJson (json : Json) : List UInt8 × Option Node :=
  let source := ((json.get? "source").getD .null).bytes
  (source, (nodes source ((json.get? "root").getD .null)).head?)

/-- The recording that a row of sources and roots describes. -/
def ofJson : Json → Recording
  | .arr items => ⟨items.map entryOfJson⟩
  | _ => ⟨[]⟩

/-- The root of a source. -/
def root? (r : Recording) (source : List UInt8) : Option Node := (r.trees.lookup source).join

/-- The recording as the grammars of the packages that are installed. -/
def grammars (r : Recording) (installed : List (String × List String)) : Grammars :=
  ⟨installed, fun _ => r.root?⟩

end Recording

namespace Grammars

/-- A text in a list of entry points. -/
def entryPointOf : Json → String
  | .str name => name
  | _ => ""

/-- The installed packages that an object describes, with their entry points. -/
def installedOf : Json → List (String × List String)
  | .obj packages => packages.map fun (name, json) =>
    match json with
    | .arr items => (name, items.map entryPointOf)
    | _ => (name, [])
  | _ => []

/-- The grammars that an object describes: packages under `modules`, and recorded trees under
`trees`. -/
def ofJson (json : Json) : Grammars :=
  (Recording.ofJson ((json.get? "trees").getD .null)).grammars
    (installedOf ((json.get? "modules").getD .null))

end Grammars

end TreeDiff
