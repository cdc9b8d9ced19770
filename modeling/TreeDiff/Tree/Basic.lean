/-
# Syntax trees

A node of a syntax tree as a parser gives it: its type, its source text, whether it is named, where
it starts and ends, the field it fills in its parent, and its children.  Anonymous nodes are tokens
such as `(`; the rest of the library looks through them.
-/

namespace TreeDiff

/-- A place in a source text, both parts counted from 0. -/
structure Point where
  row : Int
  column : Int
deriving DecidableEq, Repr, Inhabited

/-- A node of a syntax tree. -/
structure Node where
  type : String
  text : String
  named : Bool
  start : Point
  stop : Point
  /-- The field of the parent that the node fills. -/
  field : Option String
  children : List Node
deriving Inhabited

namespace Node

/-- The first child that fills a field. -/
def childForField (node : Node) (name : String) : Option Node :=
  node.children.find? fun child => child.field = some name

mutual

/-- The nodes of a tree in document order, each before its children. -/
def preorder : Node → List Node
  | node@⟨_, _, _, _, _, _, children⟩ => node :: preorderAll children

/-- The nodes of a row of trees in document order. -/
def preorderAll : List Node → List Node
  | [] => []
  | node :: rest => preorder node ++ preorderAll rest

end

mutual

/-- The number of nodes of a tree. -/
def size : Node → Nat
  | ⟨_, _, _, _, _, _, children⟩ => sizeAll children + 1

/-- The number of nodes of a row of trees. -/
def sizeAll : List Node → Nat
  | [] => 0
  | node :: rest => size node + sizeAll rest

end

theorem sizeAll_children_lt (node : Node) : sizeAll node.children < node.size := by
  cases node
  exact Nat.lt_succ_self _

theorem sizeAll_append (a b : List Node) : sizeAll (a ++ b) = sizeAll a + sizeAll b := by
  induction a with
  | nil => simp [sizeAll]
  | cons node rest ih => simp [sizeAll, ih, Nat.add_assoc]

/-- Opening the tree on top of a stack makes the stack smaller. -/
theorem sizeAll_open_lt (node : Node) (stack : List Node) :
    sizeAll (node.children ++ stack) < sizeAll (node :: stack) := by
  have hchildren := sizeAll_children_lt node
  rw [sizeAll_append, sizeAll]
  omega

/-- The nodes of the trees on a stack: the top one is taken off, and its children are put on. -/
def walkFrom : List Node → List Node
  | [] => []
  | node :: stack => node :: walkFrom (node.children ++ stack)
termination_by stack => sizeAll stack
decreasing_by exact sizeAll_open_lt node stack

/-- The nodes of a tree in document order, visited without recursion. -/
def walk (root : Node) : List Node := walkFrom [root]

/-- The named nodes at the top of the trees on a stack; an anonymous node gives way to its
children. -/
def namedFrom : List Node → List Node
  | [] => []
  | node :: stack =>
    if node.named then node :: namedFrom stack else namedFrom (node.children ++ stack)
termination_by stack => sizeAll stack
decreasing_by
  · have hchildren := sizeAll_children_lt node
    rw [sizeAll]
    omega
  · exact sizeAll_open_lt node stack

/-- The named children of a node, looking through anonymous ones of any depth. -/
def namedChildren (node : Node) : List Node := namedFrom node.children

/-- The item of a list at an index, which counts from the end when it is negative. -/
def atSigned? {α : Type} (items : List α) : Int → Option α
  | .ofNat n => items[n]?
  | .negSucc n => if n < items.length then items[items.length - (n + 1)]? else none

/-- The node that a path of child indexes leads to. -/
def descend? : Node → List Int → Option Node
  | node, [] => some node
  | node, index :: path => (atSigned? node.children index).bind fun child => descend? child path

end Node

end TreeDiff
