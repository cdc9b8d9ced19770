/-
# Entries

The nodes of an outline with their places in it: the number in document order, the parent, the
depth, the breadcrumb, and how many earlier siblings have the same type.
-/
import TreeDiff.Diff.Outline

namespace TreeDiff

/-- What tells a node from its siblings of the same type. -/
inductive Key where
  /-- Its identifier. -/
  | identifier (text : String)
  /-- Its number among the siblings of its type, for nodes without identifier. -/
  | ordinal (n : Nat)
deriving DecidableEq, Repr

/-- A node of an outline with its place. -/
structure Entry where
  /-- The number of the node in document order. -/
  seq : Nat
  /-- The number of the parent. -/
  parent : Option Nat
  /-- How many earlier siblings have the same type. -/
  ordinal : Nat
  /-- How many nodes lie above. -/
  depth : Nat
  /-- The labels of the nodes above, the root left out. -/
  path : String
  outline : Outline
  children : List Entry

/-- What stands between two labels of a breadcrumb. -/
def pathSeparator : String := " > "

namespace Entry

/-- The breadcrumb of the children of a node. -/
def pathBelow (parent : Option Nat) (path label : String) : String :=
  match parent with
  | none => ""
  | some _ => if path.isEmpty then label else path ++ pathSeparator ++ label

mutual

/-- The entry of an outline at a place, with the entries below it. -/
def ofOutline (seq : Nat) (parent : Option Nat) (ordinal depth : Nat) (path : String) :
    Outline → Entry
  | o@⟨_, _, _, _, _, children⟩ =>
    ⟨seq, parent, ordinal, depth, path, o,
      ofOutlines seq (depth + 1) (pathBelow parent path o.label) (seq + 1) [] children⟩

/-- The entries of siblings from number `seq` on; `earlier` holds the types of the siblings before
them. -/
def ofOutlines (parent depth : Nat) (path : String) (seq : Nat) (earlier : List String) :
    List Outline → List Entry
  | [] => []
  | o :: rest =>
    ofOutline seq (some parent) (earlier.count o.type) depth path o ::
      ofOutlines parent depth path (seq + o.size) (o.type :: earlier) rest

end

/-- The entry of the root of an outline. -/
def root (o : Outline) : Entry := ofOutline 0 none 0 0 "" o

mutual

/-- An entry and all below it in document order. -/
def preorder : Entry → List Entry
  | e@⟨_, _, _, _, _, _, children⟩ => e :: preorderAll children

/-- The entries of siblings and all below them in document order. -/
def preorderAll : List Entry → List Entry
  | [] => []
  | e :: rest => preorder e ++ preorderAll rest

end

/-- The type of the node. -/
def type (e : Entry) : String := e.outline.type

/-- The text of the identifier. -/
def identifier (e : Entry) : Option String := e.outline.identifier

/-- Whether the node has an identifier. -/
def isIdentified (e : Entry) : Bool := e.identifier.isSome

/-- What tells the node from its siblings of the same type. -/
def key (e : Entry) : Key :=
  match e.identifier with
  | some text => .identifier text
  | none => .ordinal e.ordinal

end Entry

end TreeDiff
