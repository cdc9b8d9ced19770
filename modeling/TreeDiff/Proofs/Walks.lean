/-
# Walks without recursion

Trees are visited with a stack: the top of it is taken off, and its children are put on.  What such
a walk gives is what the recursion over the tree gives.  The same holds of the walk that numbers the
entries of a tree.  It makes the entries of the named children when it takes a node off the stack,
and numbers them later, when it takes off these in turn; still the numbers are those of the
recursion, which knows how many nodes lie below each sibling.
-/
import Mathlib.Tactic.Lemma
import TreeDiff.Diff.Entry
import TreeDiff.Extraction

namespace TreeDiff

/-! ## Nodes -/

namespace Node

lemma preorder_eq (node : Node) : node.preorder = node :: preorderAll node.children := by
  cases node
  rfl

lemma preorderAll_append (a b : List Node) :
    preorderAll (a ++ b) = preorderAll a ++ preorderAll b := by
  induction a with
  | nil => rfl
  | cons node rest ih => rw [List.cons_append, preorderAll, ih, preorderAll, List.append_assoc]

/-- The walk with a stack goes through trees one after another, each from the top down. -/
theorem walkFrom_eq (stack : List Node) : walkFrom stack = preorderAll stack := by
  fun_induction walkFrom stack with
  | case1 => rfl
  | case2 node stack ih =>
    rw [ih, preorderAll_append, preorderAll, preorder_eq, List.cons_append]

lemma walk_eq (root : Node) : root.walk = root.preorder := by
  rw [walk, walkFrom_eq, preorderAll, preorderAll, List.append_nil]

/-- Looking through anonymous nodes leaves nodes out. -/
lemma sizeAll_namedFrom_le (stack : List Node) : sizeAll (namedFrom stack) ≤ sizeAll stack := by
  fun_induction namedFrom stack with
  | case1 => exact Nat.le_refl _
  | case2 node stack h ih =>
    rw [sizeAll, sizeAll]
    omega
  | case3 node stack h ih => exact Nat.le_trans ih (Nat.le_of_lt (sizeAll_open_lt node stack))

end Node

/-! ## Outlines -/

namespace Outline

variable {schema : Schema}

lemma top_of_named {node : Node} (h : node.named = true) :
    top schema node = [ofNode schema node] := by
  cases node
  rw [top, if_pos h]
  rfl

lemma top_of_anonymous {node : Node} (h : ¬node.named = true) :
    top schema node = forest schema node.children := by
  cases node
  rw [top, if_neg h]

lemma forest_append (a b : List Node) :
    forest schema (a ++ b) = forest schema a ++ forest schema b := by
  induction a with
  | nil => rfl
  | cons node rest ih => rw [List.cons_append, forest, ih, forest, List.append_assoc]

/-- The outlines at the top of trees are those of the named nodes that a walk finds there. -/
theorem forest_eq (schema : Schema) (stack : List Node) :
    forest schema stack = (Node.namedFrom stack).map (ofNode schema) := by
  fun_induction Node.namedFrom stack with
  | case1 => rfl
  | case2 node stack h ih =>
    rw [forest, top_of_named h, ih, List.map_cons, List.singleton_append]
  | case3 node stack h ih => rw [← ih, forest, top_of_anonymous h, forest_append]

lemma sizeAll_append (a b : List Outline) : sizeAll (a ++ b) = sizeAll a + sizeAll b := by
  induction a with
  | nil => simp [sizeAll]
  | cons o rest ih => rw [List.cons_append, sizeAll, ih, sizeAll, Nat.add_assoc]

end Outline

/-! ## Entries -/

/-- A node that waits on the stack, with its place but without its number. -/
structure Waiting where
  node : Node
  parent : Option Nat
  ordinal : Nat
  depth : Nat
  path : String

namespace Waiting

/-- Siblings that are put on the stack; `earlier` holds the types of the siblings before them. -/
def siblings (parent depth : Nat) (path : String) (earlier : List String) :
    List Node → List Waiting
  | [] => []
  | node :: rest =>
    ⟨node, some parent, earlier.count node.type, depth, path⟩ ::
      siblings parent depth path (node.type :: earlier) rest

/-- The named children of a node that gets a number. -/
def below (schema : Schema) (seq : Nat) (w : Waiting) : List Waiting :=
  siblings seq (w.depth + 1)
    (Entry.pathBelow w.parent w.path (Outline.summary schema w.node []).label) []
    w.node.namedChildren

variable {schema : Schema} {seq : Nat}

lemma map_node_siblings (parent depth : Nat) (path : String) (earlier : List String)
    (nodes : List Node) : (siblings parent depth path earlier nodes).map Waiting.node = nodes := by
  induction nodes generalizing earlier with
  | nil => rfl
  | cons node rest ih => rw [siblings, List.map_cons, ih]

lemma map_node_below (schema : Schema) (seq : Nat) (w : Waiting) :
    (w.below schema seq).map Waiting.node = w.node.namedChildren := map_node_siblings _ _ _ _ _

lemma sizeAll_below_lt (schema : Schema) (seq : Nat) (w : Waiting) (stack : List Waiting) :
    Node.sizeAll ((w.below schema seq ++ stack).map Waiting.node) <
      Node.sizeAll ((w :: stack).map Waiting.node) := by
  have hbelow := Node.sizeAll_namedFrom_le w.node.children
  have hchildren := Node.sizeAll_children_lt w.node
  rw [List.map_append, map_node_below, Node.namedChildren, Node.sizeAll_append, List.map_cons,
    Node.sizeAll]
  omega

/-- Number the nodes on a stack and all named nodes below them.  The number is given when a node is
taken off. -/
def number (schema : Schema) (seq : Nat) : List Waiting → List (Nat × Waiting)
  | [] => []
  | w :: stack => (seq, w) :: number schema (seq + 1) (w.below schema seq ++ stack)
termination_by stack => Node.sizeAll (stack.map Waiting.node)
decreasing_by exact sizeAll_below_lt schema seq w stack

/-- The entry of a node that is numbered. -/
def entry (schema : Schema) (seq : Nat) (w : Waiting) : Entry :=
  .ofOutline seq w.parent w.ordinal w.depth w.path (.ofNode schema w.node)

/-- The entries of the nodes on a stack, with all entries below each, by recursion. -/
def entries (schema : Schema) (seq : Nat) : List Waiting → List Entry
  | [] => []
  | w :: stack =>
    (w.entry schema seq).preorder ++
      entries schema (seq + (Outline.ofNode schema w.node).size) stack

lemma entries_append (a b : List Waiting) : entries schema seq (a ++ b) =
    entries schema seq a ++
      entries schema (seq + Outline.sizeAll (a.map fun w => .ofNode schema w.node)) b := by
  induction a generalizing seq with
  | nil => simp [entries, Outline.sizeAll]
  | cons w rest ih =>
    rw [List.cons_append, entries, ih, entries, List.append_assoc, List.map_cons, Outline.sizeAll,
      Nat.add_assoc]

lemma entries_siblings (parent depth : Nat) (path : String) (earlier : List String)
    (nodes : List Node) :
    entries schema seq (siblings parent depth path earlier nodes) =
      Entry.preorderAll (Entry.ofOutlines parent depth path seq earlier
        (nodes.map (Outline.ofNode schema))) := by
  induction nodes generalizing seq earlier with
  | nil => rfl
  | cons node rest ih =>
    rw [siblings, entries, ih, List.map_cons, Entry.ofOutlines, Entry.preorderAll]
    rfl

/-- What the recursion has below a node is what the walk puts on the stack for it. -/
lemma preorder_entry (w : Waiting) : (w.entry schema seq).preorder =
    w.entry schema seq :: entries schema (seq + 1) (w.below schema seq) := by
  rw [below, entries_siblings, Node.namedChildren, ← Outline.forest_eq]
  rfl

/-- **Numbers that are given when nodes are taken off the stack are those of the recursion.** -/
theorem map_entry_number (stack : List Waiting) :
    (number schema seq stack).map (fun x => x.2.entry schema x.1) = entries schema seq stack := by
  fun_induction number schema seq stack with
  | case1 => rfl
  | case2 seq w stack ih =>
    -- the recursion leaves out the numbers of what lies below, which the walk gives next
    have hsize : (Outline.ofNode schema w.node).size = Outline.sizeAll
        ((w.below schema seq).map fun u => .ofNode schema u.node) + 1 := by
      have hmap : (w.below schema seq).map (fun u => Outline.ofNode schema u.node) =
          Outline.forest schema w.node.children := by
        rw [Outline.forest_eq, ← Node.namedChildren, ← map_node_below schema seq w,
          List.map_map]
        rfl
      rw [hmap]
      rfl
    rw [List.map_cons, ih, entries_append, entries, preorder_entry, hsize, List.cons_append]
    congr 3
    omega

end Waiting

end TreeDiff
