/-
# Matching without positions

Where a node starts and ends is shown in a report, but nothing is decided by it before the changes
are sorted.  This file takes the positions away: from the nodes of a tree, from its outline, from
the entries and from the links between them.  Every step of the matching gives the same result
before and after, so the links of two trees are those of the trees without positions.
-/
import Mathlib.Tactic.Lemma
import TreeDiff.Diff.Classify
import TreeDiff.Proofs.Numbering

namespace TreeDiff

/-! ## Trees -/

namespace Node

mutual

/-- The tree with every node at the start of the text. -/
def unplaced : Node → Node
  | ⟨type, text, named, _, _, field, children⟩ =>
    ⟨type, text, named, ⟨0, 0⟩, ⟨0, 0⟩, field, unplacedAll children⟩

/-- A row of trees with every node at the start of the text. -/
def unplacedAll : List Node → List Node
  | [] => []
  | node :: rest => unplaced node :: unplacedAll rest

end

lemma unplacedAll_eq_map (nodes : List Node) : unplacedAll nodes = nodes.map unplaced := by
  induction nodes with
  | nil => rfl
  | cons node rest ih => rw [unplacedAll, ih, List.map_cons]

@[simp] lemma children_unplaced (node : Node) :
    node.unplaced.children = node.children.map unplaced := by
  cases node
  exact unplacedAll_eq_map _

@[simp] lemma type_unplaced (node : Node) : node.unplaced.type = node.type := by
  cases node
  rfl

@[simp] lemma text_unplaced (node : Node) : node.unplaced.text = node.text := by
  cases node
  rfl

@[simp] lemma named_unplaced (node : Node) : node.unplaced.named = node.named := by
  cases node
  rfl

@[simp] lemma field_unplaced (node : Node) : node.unplaced.field = node.field := by
  cases node
  rfl

lemma boundChild_unplaced (node : Node) (binding : Binding) :
    node.unplaced.boundChild binding = (node.boundChild binding).map unplaced := by
  cases binding with
  | field name =>
    simp only [boundChild, childForField, children_unplaced, List.find?_map]
    congr 2
    funext child
    simp
  | positional type =>
    simp only [boundChild, children_unplaced, List.find?_map]
    congr 2
    funext child
    simp

/-- Positions say nothing about intents. -/
@[simp] lemma intents_unplaced (schema : Schema) (node : Node) :
    node.unplaced.intents schema = node.intents schema := by
  simp only [intents, type_unplaced, boundChild_unplaced, Option.map_map]
  refine List.filterMap_congr fun entry _ => ?_
  congr 1
  funext child
  simp

end Node

/-! ## Outlines -/

namespace Outline

mutual

/-- The outline with every node at the start of the text. -/
def unplaced : Outline → Outline
  | ⟨type, intents, text, _, _, children⟩ =>
    ⟨type, intents, text, ⟨0, 0⟩, ⟨0, 0⟩, unplacedAll children⟩

/-- A row of outlines with every node at the start of the text. -/
def unplacedAll : List Outline → List Outline
  | [] => []
  | o :: rest => unplaced o :: unplacedAll rest

end

lemma unplacedAll_eq_map (os : List Outline) : unplacedAll os = os.map unplaced := by
  induction os with
  | nil => rfl
  | cons o rest ih => rw [unplacedAll, ih, List.map_cons]

@[simp] lemma type_unplaced (o : Outline) : o.unplaced.type = o.type := by
  cases o
  rfl

@[simp] lemma intents_unplaced (o : Outline) : o.unplaced.intents = o.intents := by
  cases o
  rfl

@[simp] lemma text_unplaced (o : Outline) : o.unplaced.text = o.text := by
  cases o
  rfl

@[simp] lemma identifier_unplaced (o : Outline) : o.unplaced.identifier = o.identifier := by
  rw [identifier, identifier, intents_unplaced]

@[simp] lemma label_unplaced (o : Outline) : o.unplaced.label = o.label := by
  rw [label, label, identifier_unplaced, type_unplaced]

@[simp] lemma comparedText_unplaced (o : Outline) : o.unplaced.comparedText = o.comparedText := by
  rw [comparedText, comparedText, intents_unplaced, text_unplaced]

lemma summary_unplaced (schema : Schema) (node : Node) (below : List Outline) :
    summary schema node.unplaced (below.map unplaced) = (summary schema node below).unplaced := by
  cases node
  simp only [summary, unplaced, unplacedAll_eq_map, Node.intents_unplaced]
  rfl

mutual

lemma top_unplaced (schema : Schema) :
    ∀ node : Node, top schema node.unplaced = (top schema node).map unplaced
  | ⟨type, text, named, start, stop, field, children⟩ => by
    have hbelow := forest_unplaced schema children
    rw [Node.unplaced, top, top, hbelow]
    by_cases hnamed : named = true
    · -- the summary looks at the node itself, whose intents are those of its own children
      have hsummary := summary_unplaced schema
        ⟨type, text, named, start, stop, field, children⟩ (forest schema children)
      rw [if_pos hnamed, if_pos hnamed, List.map_singleton, ← hsummary]
      rfl
    · rw [if_neg hnamed, if_neg hnamed]

lemma forest_unplaced (schema : Schema) :
    ∀ nodes : List Node, forest schema (Node.unplacedAll nodes) = (forest schema nodes).map unplaced
  | [] => rfl
  | node :: rest => by
    rw [Node.unplacedAll, forest, forest, top_unplaced schema node, forest_unplaced schema rest,
      List.map_append]

end

/-- The outline of a tree without positions. -/
theorem ofNode_unplaced (schema : Schema) (root : Node) :
    ofNode schema root.unplaced = (ofNode schema root).unplaced := by
  rw [ofNode, ofNode, Node.children_unplaced, ← Node.unplacedAll_eq_map, forest_unplaced,
    summary_unplaced]

mutual

lemma size_unplaced : ∀ o : Outline, o.unplaced.size = o.size
  | ⟨_, _, _, _, _, children⟩ => by rw [unplaced, size, size, sizeAll_unplaced children]

lemma sizeAll_unplaced : ∀ os : List Outline, sizeAll (unplacedAll os) = sizeAll os
  | [] => rfl
  | o :: rest => by rw [unplacedAll, sizeAll, sizeAll, size_unplaced o, sizeAll_unplaced rest]

end

end Outline

/-! ## Entries -/

namespace Entry

mutual

/-- The entry with all nodes at the start of the text. -/
def unplaced : Entry → Entry
  | ⟨seq, parent, ordinal, depth, path, outline, children⟩ =>
    ⟨seq, parent, ordinal, depth, path, outline.unplaced, unplacedAll children⟩

/-- Entries with all nodes at the start of the text. -/
def unplacedAll : List Entry → List Entry
  | [] => []
  | e :: rest => unplaced e :: unplacedAll rest

end

lemma unplacedAll_eq_map (es : List Entry) : unplacedAll es = es.map unplaced := by
  induction es with
  | nil => rfl
  | cons e rest ih => rw [unplacedAll, ih, List.map_cons]

section

variable (e : Entry)

@[simp] lemma seq_unplaced : e.unplaced.seq = e.seq := by
  cases e
  rfl

@[simp] lemma parent_unplaced : e.unplaced.parent = e.parent := by
  cases e
  rfl

@[simp] lemma ordinal_unplaced : e.unplaced.ordinal = e.ordinal := by
  cases e
  rfl

@[simp] lemma depth_unplaced : e.unplaced.depth = e.depth := by
  cases e
  rfl

@[simp] lemma path_unplaced : e.unplaced.path = e.path := by
  cases e
  rfl

@[simp] lemma outline_unplaced : e.unplaced.outline = e.outline.unplaced := by
  cases e
  rfl

@[simp] lemma children_unplaced : e.unplaced.children = e.children.map unplaced := by
  cases e
  exact unplacedAll_eq_map _

@[simp] lemma type_unplaced : e.unplaced.type = e.type := by
  rw [type, type, outline_unplaced, Outline.type_unplaced]

@[simp] lemma identifier_unplaced : e.unplaced.identifier = e.identifier := by
  rw [identifier, identifier, outline_unplaced, Outline.identifier_unplaced]

@[simp] lemma isIdentified_unplaced : e.unplaced.isIdentified = e.isIdentified := by
  rw [isIdentified, isIdentified, identifier_unplaced]

@[simp] lemma key_unplaced : e.unplaced.key = e.key := by
  rw [key, key, identifier_unplaced, ordinal_unplaced]

end

@[simp] lemma similarity_unplaced (threshold : Binary64) (old new : Entry) :
    old.unplaced.similarity threshold new.unplaced = old.similarity threshold new := by
  rw [similarity, similarity, outline_unplaced, outline_unplaced, Outline.comparedText_unplaced,
    Outline.comparedText_unplaced]

mutual

lemma ofOutline_unplaced (seq : Nat) (parent : Option Nat) (ordinal depth : Nat) (path : String) :
    ∀ o : Outline, ofOutline seq parent ordinal depth path o.unplaced =
      (ofOutline seq parent ordinal depth path o).unplaced
  | ⟨type, intents, text, start, stop, children⟩ => by
    have hlabel := Outline.label_unplaced ⟨type, intents, text, start, stop, children⟩
    rw [Outline.unplaced] at hlabel
    rw [Outline.unplaced, ofOutline, ofOutline, unplaced, hlabel, ofOutlines_unplaced,
      Outline.unplaced]

lemma ofOutlines_unplaced (parent depth : Nat) (path : String) (seq : Nat)
    (earlier : List String) :
    ∀ os : List Outline, ofOutlines parent depth path seq earlier (Outline.unplacedAll os) =
      unplacedAll (ofOutlines parent depth path seq earlier os)
  | [] => rfl
  | o :: rest => by
    rw [Outline.unplacedAll, ofOutlines, ofOutlines, unplacedAll, Outline.type_unplaced,
      Outline.size_unplaced, ofOutline_unplaced, ofOutlines_unplaced]

end

lemma root_unplaced (o : Outline) : root o.unplaced = (root o).unplaced :=
  ofOutline_unplaced _ _ _ _ _ o

mutual

lemma preorder_unplaced : ∀ e : Entry, e.unplaced.preorder = e.preorder.map unplaced
  | ⟨_, _, _, _, _, _, children⟩ => by
    rw [preorder, List.map_cons, ← preorderAll_unplaced children, unplaced, preorder]

lemma preorderAll_unplaced :
    ∀ es : List Entry, preorderAll (unplacedAll es) = (preorderAll es).map unplaced
  | [] => rfl
  | e :: rest => by
    rw [unplacedAll, preorderAll, preorderAll, preorder_unplaced e, preorderAll_unplaced rest,
      List.map_append]

end

end Entry

/-! ## Links -/

/-- The link between the entries without positions. -/
def Link.unplaced (l : Link) : Link := ⟨l.old.unplaced, l.new.unplaced, l.kind⟩

namespace Links

/-- The links between the entries without positions. -/
def unplaced (links : Links) : Links := links.map Link.unplaced

section

variable (links : Links) (e : Entry)

lemma ofOld?_unplaced : links.unplaced.ofOld? e.unplaced = (links.ofOld? e).map Link.unplaced := by
  rw [ofOld?, ofOld?, unplaced, List.find?_map]
  congr 2
  funext l
  simp [Link.unplaced]

lemma ofNew?_unplaced : links.unplaced.ofNew? e.unplaced = (links.ofNew? e).map Link.unplaced := by
  rw [ofNew?, ofNew?, unplaced, List.find?_map]
  congr 2
  funext l
  simp [Link.unplaced]

@[simp] lemma freeOld_unplaced : links.unplaced.freeOld e.unplaced = links.freeOld e := by
  rw [freeOld, freeOld, ofOld?_unplaced, Option.isNone_map]

@[simp] lemma freeNew_unplaced : links.unplaced.freeNew e.unplaced = links.freeNew e := by
  rw [freeNew, freeNew, ofNew?_unplaced, Option.isNone_map]

end

lemma joinsOld_unplaced (links : Links) (seq : Nat) :
    links.unplaced.joinsOld seq = links.joinsOld seq := by
  rw [joinsOld, joinsOld, unplaced, List.any_map]
  exact congrArg links.any (funext fun l => by simp [Link.unplaced])

lemma joinsNew_unplaced (links : Links) (seq : Nat) :
    links.unplaced.joinsNew seq = links.joinsNew seq := by
  rw [joinsNew, joinsNew, unplaced, List.any_map]
  exact congrArg links.any (funext fun l => by simp [Link.unplaced])

lemma joinAll_unplaced (links : Links) (more : List Link) :
    links.unplaced.joinAll (more.map Link.unplaced) = (links.joinAll more).unplaced := by
  induction more generalizing links with
  | nil => rfl
  | cons l rest ih => exact ih (l :: links)

end Links

end TreeDiff
