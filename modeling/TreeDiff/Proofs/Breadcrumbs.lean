/-
# Breadcrumbs

A breadcrumb is made on the way down: right below the root it is empty, and below any other entry a
separator and the label of the entry are put after the breadcrumb of the entry.  Where the
breadcrumb is still empty, the label alone is put there.  An empty breadcrumb thus stands for the
place right below the root, but an empty label leaves the breadcrumb empty at any other place too.
So a breadcrumb is the labels of the named nodes above, joined with the separator, less the empty
labels that come before all others.
-/
import TreeDiff.Proofs.Changes
import TreeDiff.Proofs.Traversals

namespace TreeDiff

/-! ## Labels on a way down -/

namespace Entry

/-- The breadcrumb that one becomes on a way down along labels. -/
def pathAlong (path : String) (labels : List String) : String :=
  labels.foldl (pathBelow (some 0)) path

variable {path : String} {labels : List String}

lemma pathBelow_of_ne_empty {parent : Nat} {label : String} (h : path ≠ "") :
    pathBelow (some parent) path label = path ++ pathSeparator ++ label := by
  simp [pathBelow, h]

/-- A breadcrumb that is not empty keeps all labels. -/
lemma pathAlong_of_ne_empty (h : path ≠ "") :
    pathAlong path labels = pathSeparator.intercalate (path :: labels) := by
  induction labels generalizing path with
  | nil => exact String.intercalate_singleton.symm
  | cons label rest ih =>
    have hne : path ++ pathSeparator ++ label ≠ "" := by simp [h]
    rw [pathAlong, List.foldl_cons, pathBelow_of_ne_empty h, ← pathAlong, ih hne,
      String.intercalate_cons_append, String.intercalate_cons_cons]

/-- **An empty breadcrumb takes no empty labels.** -/
theorem pathAlong_empty (labels : List String) : pathAlong "" labels =
    pathSeparator.intercalate (labels.dropWhile String.isEmpty) := by
  induction labels with
  | nil => exact String.intercalate_nil.symm
  | cons label rest ih =>
    have hbelow : pathAlong "" (label :: rest) = pathAlong label rest := rfl
    by_cases h : label = ""
    · rw [hbelow, h, ih, List.dropWhile_cons_of_pos (by rfl)]
    · rw [hbelow, pathAlong_of_ne_empty h, List.dropWhile_cons_of_neg (by simpa using h)]

end Entry

/-- Leaving out labels makes no breadcrumb longer. -/
lemma length_intercalate_dropWhile_le (separator : String) (labels : List String) :
    (separator.intercalate (labels.dropWhile String.isEmpty)).length ≤
      (separator.intercalate labels).length := by
  induction labels with
  | nil => exact Nat.le_refl _
  | cons label rest ih =>
    by_cases h : label.isEmpty = true
    · rw [List.dropWhile_cons_of_pos h]
      cases rest with
      | nil => simp
      | cons next rest =>
        refine ih.trans ?_
        rw [String.intercalate_cons_cons, String.length_append]
        exact Nat.le_add_left _ _
    · rw [List.dropWhile_cons_of_neg h]

/-- The empty labels that are left out are missed as soon as another label follows. -/
lemma intercalate_dropWhile_eq_iff {labels : List String} :
    pathSeparator.intercalate (labels.dropWhile String.isEmpty) = pathSeparator.intercalate labels ↔
      labels.length ≤ 1 ∨ labels.head? ≠ some "" := by
  match labels with
  | [] => simp
  | [label] => by_cases h : label = "" <;> simp [h]
  | label :: next :: rest =>
    by_cases h : label = ""
    · subst h
      have hle := length_intercalate_dropWhile_le pathSeparator (next :: rest)
      refine iff_of_false (fun heq => ?_) (by simp)
      have hlength := congrArg String.length heq
      rw [List.dropWhile_cons_of_pos (by rfl), String.intercalate_cons_cons, String.length_append,
        String.length_append] at hlength
      have hseparator : pathSeparator.length = 3 := rfl
      omega
    · simp [h]

/-! ## The breadcrumbs of the entries -/

/-- What an entry says of the node that it stands for, and its breadcrumb. -/
def Entry.crumb (e : Entry) : String × ExtractedNode := (e.path, e.extracted)

namespace Node

/-- What a node is called in breadcrumbs: its identifier, or else its type. -/
def label (schema : Schema) (node : Node) : String :=
  ((node.intents schema).lookup .identifier).getD node.type

/-- The labels of those of some nodes that stand above a place. -/
def labelsAbove (schema : Schema) (nodes : List (Place × Node)) (p : Place) : List String :=
  (nodes.filter fun x => x.1.Above p).map fun x => x.2.label schema

/-- The breadcrumb that a node has among given nodes, when these stand below a breadcrumb. -/
def crumb (schema : Schema) (nodes : List (Place × Node)) (path : String) (x : Place × Node) :
    String × ExtractedNode :=
  (Entry.pathAlong path (labelsAbove schema nodes x.1), Extractor.extract ⟨schema, none⟩ x.2)

variable {schema : Schema} {nodes others : List (Place × Node)} {path : String} {x y : Place × Node}
  {p : Place}

lemma labelsAbove_eq_nil (h : ∀ y ∈ nodes, ¬y.1.Above p) : labelsAbove schema nodes p = [] := by
  rw [labelsAbove, List.filter_eq_nil_iff.2 fun y hy => by simpa using h y hy, List.map_nil]

lemma labelsAbove_append : labelsAbove schema (nodes ++ others) p =
    labelsAbove schema nodes p ++ labelsAbove schema others p := by
  rw [labelsAbove, List.filter_append, List.map_append, ← labelsAbove, ← labelsAbove]

/-- At a place that has none of the nodes above. -/
lemma crumb_of_forall_not_above (h : ∀ y ∈ nodes, ¬y.1.Above x.1) :
    crumb schema nodes path x = (path, Extractor.extract ⟨schema, none⟩ x.2) := by
  rw [crumb, labelsAbove_eq_nil h]
  rfl

/-- Below the first of the nodes. -/
lemma crumb_cons (h : y.1.Above x.1) : crumb schema (y :: nodes) path x =
    crumb schema nodes (Entry.pathBelow (some 0) path (y.2.label schema)) x := by
  rw [crumb, labelsAbove, List.filter_cons_of_pos (by simpa using h), List.map_cons]
  rfl

/-- What stands below a child and what stands below the later ones do not change each other's
breadcrumbs. -/
lemma map_crumb_append {place : Place} {i : Nat} {node : Node} {rest : List Node} :
    (namedAtFrom place i (node :: rest)).map
        (crumb schema (namedAtFrom place i (node :: rest)) path) =
      (namedAt (place ++ [i]) node).map (crumb schema (namedAt (place ++ [i]) node) path) ++
      (namedAtFrom place (i + 1) rest).map
        (crumb schema (namedAtFrom place (i + 1) rest) path) := by
  rw [namedAtFrom_cons, List.map_append]
  congr 1
  · refine List.map_congr_left fun x hx => ?_
    rw [crumb, labelsAbove_append,
      labelsAbove_eq_nil fun y hy => (not_above_of_later hx hy).1, List.append_nil, crumb]
  · refine List.map_congr_left fun y hy => ?_
    rw [crumb, labelsAbove_append,
      labelsAbove_eq_nil fun x hx => (not_above_of_later hx hy).2, List.nil_append, crumb]

/-- What stands below a named node has it as the first of the nodes above. -/
lemma map_crumb_cons {place : Place} {node : Node} (h : node.named = true) :
    (namedAt place node).map (crumb schema (namedAt place node) path) =
      (path, Extractor.extract ⟨schema, none⟩ node) ::
        (namedAtFrom place 0 node.children).map (crumb schema (namedAtFrom place 0 node.children)
          (Entry.pathBelow (some 0) path (node.label schema))) := by
  have htop : ∀ y ∈ namedAt place node, ¬y.1.Above place := fun y hy =>
    not_above_of_mem_namedAt hy
  rw [namedAt_of_named h] at htop ⊢
  rw [List.map_cons, crumb_of_forall_not_above htop]
  congr 1
  exact List.map_congr_left fun x hx => crumb_cons (above_of_mem_namedAtFrom hx)

end Node

mutual

/-- The entries of what stands at a place have the breadcrumbs of the named nodes there. -/
theorem map_crumb_top (schema : Schema) (parent depth : Nat) (path : String) (seq : Nat)
    (earlier : List String) (place : Place) : ∀ node : Node,
    (Entry.preorderAll (Entry.ofOutlines parent depth path seq earlier
      (Outline.top schema node))).map Entry.crumb =
    (Node.namedAt place node).map (Node.crumb schema (Node.namedAt place node) path)
  | ⟨type, text, named, start, stop, field, children⟩ => by
    by_cases h : named = true
    · -- the node is the first of those above, so what lies below goes on from its label
      have hbelow := map_crumb_forest schema seq (depth + 1)
        (Entry.pathBelow (some parent) path (Outline.ofNode schema
          ⟨type, text, named, start, stop, field, children⟩).label) (seq + 1) [] place 0 children
      rw [Node.map_crumb_cons h, Outline.top_of_named h, Entry.ofOutlines, Entry.ofOutlines,
        Entry.preorderAll, Entry.preorderAll, List.append_nil, Entry.preorder_eq, List.map_cons]
      exact congrArg _ hbelow
    · rw [Node.namedAt_of_anonymous h, Outline.top_of_anonymous h]
      exact map_crumb_forest schema parent depth path seq earlier place 0 children

theorem map_crumb_forest (schema : Schema) (parent depth : Nat) (path : String) (seq : Nat)
    (earlier : List String) (place : Place) (i : Nat) : ∀ nodes : List Node,
    (Entry.preorderAll (Entry.ofOutlines parent depth path seq earlier
      (Outline.forest schema nodes))).map Entry.crumb =
    (Node.namedAtFrom place i nodes).map (Node.crumb schema (Node.namedAtFrom place i nodes) path)
  | [] => rfl
  | node :: rest => by
    rw [Outline.forest, Entry.ofOutlines_append, Entry.preorderAll_append, List.map_append,
      map_crumb_top schema parent depth path seq earlier (place ++ [i]) node, Node.map_crumb_append,
      map_crumb_forest schema parent depth path _ _ place (i + 1) rest]

end

/-! ## The nodes above -/

/-- In document order, the nodes above a place stand from the outermost on. -/
lemma Place.InOrder.pairwise_above {nodes : List (Place × Node)} (p : Place)
    (h : InOrder (nodes.map Prod.fst)) :
    (nodes.filter fun x => x.1.Above p).Pairwise fun x y => x.1.Above y.1 := by
  have horder : (nodes.filter fun x => x.1.Above p).Pairwise fun x y => ¬y.1 <+: x.1 :=
    (List.pairwise_map.1 h).filter _
  refine horder.imp_of_mem fun {x y} hx hy hyx => ?_
  have hxp : x.1.Above p := by simpa using (List.mem_filter.1 hx).2
  have hyp : y.1.Above p := by simpa using (List.mem_filter.1 hy).2
  have hxy : x.1 <+: y.1 := (List.prefix_or_prefix_of_prefix hxp.1 hyp.1).resolve_right hyx
  exact ⟨hxy, fun heq => hyx (heq ▸ List.prefix_rfl)⟩

/-- The nearest of some places above a given one is that of the last node above it. -/
lemma Place.getLast?_filter_above {nodes : List (Place × Node)} {p : Place} :
    (nodes.filter fun x => x.1.Above p).getLast? =
      (nearest? p (nodes.map Prod.fst)).bind fun j => nodes[j]? := by
  induction nodes with
  | nil => rfl
  | cons x rest ih =>
    rw [List.map_cons, nearest?]
    cases hrest : nearest? p (rest.map Prod.fst) with
    | some j =>
      obtain ⟨before, q, after, hsplit, hj, -⟩ := nearest?_spec hrest
      have hin : j < rest.length := by
        have hlength := congrArg List.length hsplit
        rw [List.length_map, List.length_append, List.length_cons] at hlength
        omega
      rw [hrest, Option.bind_some, List.getElem?_eq_getElem hin] at ih
      simp only [Option.bind_some, List.getElem?_cons_succ, List.getElem?_eq_getElem hin]
      by_cases hx : x.1.Above p
      · rw [List.filter_cons_of_pos (by simpa using hx), List.getLast?_cons, ih, Option.getD_some]
      · rw [List.filter_cons_of_neg (by simpa using hx), ih]
    | none =>
      have hnone : (rest.filter fun x => x.1.Above p) = [] :=
        List.filter_eq_nil_iff.2 fun y hy => by
          simpa using nearest?_eq_none_iff.1 hrest y.1 (List.mem_map_of_mem hy)
      by_cases hx : x.1.Above p
      · rw [List.filter_cons_of_pos (by simpa using hx), hnone]
        simp [hx]
      · rw [List.filter_cons_of_neg (by simpa using hx), hnone]
        simp [hx]

namespace Node

/-- The named nodes below the root of a tree with their places, in document order. -/
def namedBelow (root : Node) : List (Place × Node) := namedAtFrom [] 0 root.children

/-- The named nodes above a place, the root left out, from the outermost on. -/
def namedAbove (root : Node) (p : Place) : List (Place × Node) :=
  root.namedBelow.filter fun x => x.1.Above p

variable {root n : Node} {p q : Place}

/-- The named nodes below the root are those that a way down leads to. -/
lemma mem_namedBelow_iff : (q, n) ∈ root.namedBelow ↔
    q ≠ [] ∧ root.descend? (q.map Int.ofNat) = some n ∧ n.named = true := by
  rw [namedBelow, namedAtFrom, List.mem_filter, mem_locatedFrom_iff, ← and_assoc]
  refine and_congr_left fun _ => ?_
  constructor
  · rintro ⟨k, child, rest, hchild, rfl, hrest⟩
    refine ⟨by simp, ?_⟩
    rw [List.nil_append, Nat.zero_add, descend?_cons, hchild, Option.bind_some, hrest]
  · rintro ⟨hne, hdescend⟩
    obtain ⟨k, rest, rfl⟩ := List.exists_cons_of_ne_nil hne
    rw [descend?_cons] at hdescend
    obtain ⟨child, hchild, hrest⟩ := Option.bind_eq_some_iff.1 hdescend
    exact ⟨k, child, rest, hchild, by simp, hrest⟩

lemma inOrder_namedBelow (root : Node) : Place.InOrder (root.namedBelow.map Prod.fst) :=
  (inOrder_locatedFrom [] 0 root.children).sublist (List.filter_sublist.map Prod.fst)

end Node

/-- The breadcrumb of the entry of a named node below the root of a tree. -/
structure Entry.HasBreadcrumb (schema : Schema) (root : Node) (x : Place × Node) (e : Entry) :
    Prop where
  extracted_eq : e.extracted = Extractor.extract ⟨schema, none⟩ x.2
  /-- The nodes above are the named nodes on the way from the root to the node, -/
  mem_above : ∀ q n, (q, n) ∈ root.namedAbove x.1 ↔
    q ≠ [] ∧ q.Above x.1 ∧ root.descend? (q.map Int.ofNat) = some n ∧ n.named = true
  /-- from the outermost on -/
  pairwise_above : (root.namedAbove x.1).Pairwise fun y z => y.1.Above z.1
  /-- to the parent. -/
  last_eq : (root.namedAbove x.1).getLast? =
    e.parent.bind fun number => if number = 0 then none else root.namedBelow[number - 1]?
  /-- The breadcrumb is their labels, less the empty ones before all others. -/
  path_eq : e.path = pathSeparator.intercalate
    (((root.namedAbove x.1).map fun y => y.2.label schema).dropWhile String.isEmpty)
  /-- It is all their labels unless the first of several is empty. -/
  path_eq_iff : e.path = pathSeparator.intercalate
      ((root.namedAbove x.1).map fun y => y.2.label schema) ↔
    (root.namedAbove x.1).length ≤ 1 ∨
      ((root.namedAbove x.1).map fun y => y.2.label schema).head? ≠ some ""
  /-- The children of the root have none. -/
  path_of_child : e.parent = some 0 → e.path = ""

/-- The breadcrumb and the seat of a node say where it stands. -/
lemma Entry.hasBreadcrumb_of_eq {schema : Schema} {root : Node} {x : Place × Node} {e : Entry}
    (hcrumb : e.crumb = Node.crumb schema root.namedBelow "" x)
    (hseat : e.seat = Node.seat schema (root.namedBelow.map Prod.fst) 1 0 1 x) :
    e.HasBreadcrumb schema root x := by
  have hpath : e.path = pathSeparator.intercalate
      (((root.namedAbove x.1).map fun y => y.2.label schema).dropWhile String.isEmpty) :=
    (congrArg Prod.fst hcrumb).trans (pathAlong_empty _)
  have hparent : e.parent = some (((Place.nearest? x.1 (root.namedBelow.map Prod.fst)).map
      (1 + ·)).getD 0) := congrArg Prod.fst hseat
  have hlast : (root.namedAbove x.1).getLast? =
      e.parent.bind fun number => if number = 0 then none else root.namedBelow[number - 1]? := by
    rw [Node.namedAbove, Place.getLast?_filter_above, hparent]
    cases Place.nearest? x.1 (root.namedBelow.map Prod.fst) with
    | none => rfl
    | some j => simp
  refine ⟨congrArg Prod.snd hcrumb, fun q n => ?_, Node.inOrder_namedBelow root |>.pairwise_above _,
    hlast, hpath, ?_, fun htop => ?_⟩
  · rw [Node.namedAbove, List.mem_filter, Node.mem_namedBelow_iff, decide_eq_true_eq]
    tauto
  · rw [hpath, intercalate_dropWhile_eq_iff, List.length_map]
  · rw [htop, Option.bind_some, if_pos rfl, List.getLast?_eq_none_iff] at hlast
    rw [hpath, hlast]
    rfl

/-- **The breadcrumbs of a tree.**  The entries below the root stand for the named nodes below the
root, one for one, and the breadcrumb of each is made of the labels above it. -/
theorem hasBreadcrumb_entries (schema : Schema) (root : Node) :
    (∀ q n, (q, n) ∈ root.namedBelow ↔
      q ≠ [] ∧ root.descend? (q.map Int.ofNat) = some n ∧ n.named = true) ∧
    List.Forall₂ (fun x e => e.HasBreadcrumb schema root x) root.namedBelow
      (root.entries schema).tail := by
  refine ⟨fun _ _ => Node.mem_namedBelow_iff, ?_⟩
  have htail : (root.entries schema).tail =
      Entry.preorderAll (Entry.ofOutlines 0 1 "" 1 [] (Outline.forest schema root.children)) := rfl
  have hcrumbs := map_crumb_forest schema 0 1 "" 1 [] [] 0 root.children
  have hseats := map_seat_forest schema 0 1 "" 1 [] [] 0 root.children
  rw [← htail, ← Node.namedBelow] at hcrumbs hseats
  have hlength := congrArg List.length hcrumbs
  rw [List.length_map, List.length_map] at hlength
  refine List.forall₂_iff_get.2 ⟨hlength.symm, fun i hx he => ?_⟩
  have hcrumb := List.getElem_of_eq hcrumbs (by rwa [List.length_map])
  have hseat := List.getElem_of_eq hseats (by rwa [List.length_map])
  rw [List.getElem_map, List.getElem_map] at hcrumb hseat
  exact Entry.hasBreadcrumb_of_eq hcrumb hseat

/-- A program of a function with a name, whose body holds a function `f`. -/
def Node.aroundFunction (name : String) : Node :=
  .programOf [⟨"function", "", true, ⟨0, 0⟩, ⟨0, 0⟩, none,
    [⟨"identifier", name, true, ⟨0, 0⟩, ⟨0, 0⟩, some "name", []⟩,
      ⟨"block", "", true, ⟨0, 0⟩, ⟨0, 0⟩, some "body", [.ofFunction "f" "1"]⟩]⟩]

/-- The breadcrumb of `f` is all the labels above it when the function around it has a name. -/
theorem breadcrumb_aroundFunction_outer :
    ∃ x e, (Node.aroundFunction "outer").namedBelow[3]? = some x ∧
      ((Node.aroundFunction "outer").entries .functions).tail[3]? = some e ∧
      e.HasBreadcrumb .functions (.aroundFunction "outer") x ∧
      ((Node.aroundFunction "outer").namedAbove x.1).map (fun y => y.2.label .functions) =
        ["outer", "block"] ∧
      e.path = "outer > block" := by
  obtain ⟨-, hall⟩ := hasBreadcrumb_entries .functions (.aroundFunction "outer")
  obtain ⟨-, hat⟩ := List.forall₂_iff_get.1 hall
  have hcrumb := hat 3 (by decide +kernel) (by decide +kernel)
  refine ⟨_, _, rfl, rfl, hcrumb, by decide +kernel, ?_⟩
  exact (hcrumb.path_eq_iff.2 (by decide +kernel)).trans (by decide +kernel)

/-- **A label is lost** when the function around `f` has an empty name. -/
theorem not_all_labels_aroundFunction :
    ¬∀ (schema : Schema) (root : Node), List.Forall₂ (fun x e => e.path =
      pathSeparator.intercalate ((root.namedAbove x.1).map fun y => y.2.label schema))
      root.namedBelow (root.entries schema).tail := by
  intro h
  obtain ⟨-, hat⟩ := List.forall₂_iff_get.1 (h .functions (.aroundFunction ""))
  exact absurd (hat 3 (by decide +kernel) (by decide +kernel)) (by decide +kernel)

end TreeDiff
