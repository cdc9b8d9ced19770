/-
# Three walks through a tree

A tree is walked through node by node, by named children, and by the entries of a comparison.  The
entries are the named nodes in document order, and the place of an entry is that of its node: its
parent is the nearest named node above, and its depth is the number of the named nodes above.
-/
import TreeDiff.Proofs.Numbering
import TreeDiff.Proofs.Places
import TreeDiff.Proofs.Walks

namespace TreeDiff

/-! ## Seats -/

/-- What an entry says of the node that it stands for. -/
def Entry.extracted (e : Entry) : ExtractedNode :=
  ⟨e.outline.type, e.outline.start, e.outline.stop, e.outline.text, e.outline.intents⟩

/-- The parent and the depth of an entry, and its node. -/
def Entry.seat (e : Entry) : Option Nat × Nat × ExtractedNode := (e.parent, e.depth, e.extracted)

/-- The parent and the depth that a node has among the nodes at the given places, when these are
numbered from `seq` on and stand below a node with number `parent`. -/
def Node.seat (schema : Schema) (places : List Place) (seq parent depth : Nat) (x : Place × Node) :
    Option Nat × Nat × ExtractedNode :=
  (some (((Place.nearest? x.1 places).map (seq + ·)).getD parent),
    depth + places.countP (fun q => q.Above x.1), Extractor.extract ⟨schema, none⟩ x.2)

namespace Node

variable {schema : Schema} {places others : List Place} {seq parent depth : Nat} {x : Place × Node}
  {q : Place}

lemma seat_append_left (h : ∀ q ∈ others, ¬q.Above x.1) :
    seat schema (places ++ others) seq parent depth x = seat schema places seq parent depth x := by
  rw [seat, seat, Place.nearest?_append, Place.nearest?_eq_none_iff.2 h, List.countP_append,
    Place.countP_above_eq_zero h]
  rfl

lemma seat_append_right (h : ∀ q ∈ places, ¬q.Above x.1) :
    seat schema (places ++ others) seq parent depth x =
      seat schema others (seq + places.length) parent depth x := by
  rw [seat, seat, Place.nearest?_append, Place.nearest?_eq_none_iff.2 h, List.countP_append,
    Place.countP_above_eq_zero h, Option.or_none, Option.map_map, Nat.zero_add]
  simp only [Function.comp_def, Nat.add_assoc]

/-- Below the first of the places. -/
lemma seat_cons (h : q.Above x.1) : seat schema (q :: places) seq parent depth x =
    seat schema places (seq + 1) seq (depth + 1) x := by
  rw [seat, seat, Place.nearest?, List.countP_cons]
  simp only [h, if_true, decide_true]
  cases Place.nearest? x.1 places with
  | none => simp [Nat.add_assoc, Nat.add_comm 1]
  | some j => simp [Nat.add_assoc, Nat.add_comm 1]

/-- At a place that has none of the places above. -/
lemma seat_of_forall_not_above (h : ∀ q ∈ places, ¬q.Above x.1) :
    seat schema places seq parent depth x =
      (some parent, depth, Extractor.extract ⟨schema, none⟩ x.2) := by
  rw [seat, Place.nearest?_eq_none_iff.2 h, Place.countP_above_eq_zero h]
  rfl

end Node

/-! ## The seats of the entries -/

namespace Entry

lemma preorderAll_append (a b : List Entry) :
    preorderAll (a ++ b) = preorderAll a ++ preorderAll b := by
  rw [preorderAll_eq_flatMap, List.flatMap_append, ← preorderAll_eq_flatMap,
    ← preorderAll_eq_flatMap]

lemma ofOutlines_append {parent depth : Nat} {path : String} {seq : Nat} {earlier : List String}
    (a b : List Outline) : ofOutlines parent depth path seq earlier (a ++ b) =
      ofOutlines parent depth path seq earlier a ++
        ofOutlines parent depth path (seq + Outline.sizeAll a)
          ((a.map Outline.type).reverse ++ earlier) b := by
  induction a generalizing seq earlier with
  | nil => simp [ofOutlines, Outline.sizeAll]
  | cons o rest ih =>
    rw [List.cons_append, ofOutlines, ih, ofOutlines, List.cons_append, Outline.sizeAll,
      Nat.add_assoc, List.map_cons, List.reverse_cons, List.append_assoc, List.singleton_append]

end Entry

/-- What stands below a child and what stands below the later ones do not change each other's
seats. -/
lemma Node.map_seat_append {schema : Schema} {place : Place} {i seq parent depth : Nat}
    {node : Node} {rest : List Node} :
    (namedAtFrom place i (node :: rest)).map
        (seat schema ((namedAtFrom place i (node :: rest)).map Prod.fst) seq parent depth) =
      (namedAt (place ++ [i]) node).map
        (seat schema ((namedAt (place ++ [i]) node).map Prod.fst) seq parent depth) ++
      (namedAtFrom place (i + 1) rest).map
        (seat schema ((namedAtFrom place (i + 1) rest).map Prod.fst)
          (seq + (namedAt (place ++ [i]) node).length) parent depth) := by
  rw [namedAtFrom_cons, List.map_append, List.map_append]
  congr 1
  · refine List.map_congr_left fun x hx => seat_append_left fun q hq => ?_
    obtain ⟨y, hy, rfl⟩ := List.mem_map.1 hq
    exact (not_above_of_later hx hy).1
  · refine List.map_congr_left fun y hy => ?_
    rw [seat_append_right, List.length_map]
    intro q hq
    obtain ⟨x, hx, rfl⟩ := List.mem_map.1 hq
    exact (not_above_of_later hx hy).2

/-- What stands below a named node has it as the first of the places above. -/
lemma Node.map_seat_cons {schema : Schema} {place : Place} {seq parent depth : Nat} {node : Node}
    (h : node.named = true) :
    (namedAt place node).map (seat schema ((namedAt place node).map Prod.fst) seq parent depth) =
      (some parent, depth, Extractor.extract ⟨schema, none⟩ node) ::
        (namedAtFrom place 0 node.children).map
          (seat schema ((namedAtFrom place 0 node.children).map Prod.fst) (seq + 1) seq
            (depth + 1)) := by
  have htop : ∀ q ∈ (namedAt place node).map Prod.fst, ¬q.Above place := fun q hq => by
    obtain ⟨x, hx, rfl⟩ := List.mem_map.1 hq
    exact not_above_of_mem_namedAt hx
  rw [namedAt_of_named h] at htop ⊢
  rw [List.map_cons, seat_of_forall_not_above htop, List.map_cons]
  congr 1
  exact List.map_congr_left fun x hx => seat_cons (above_of_mem_namedAtFrom hx)

mutual

/-- The entries of what stands at a place have the seats of the named nodes there. -/
theorem map_seat_top (schema : Schema) (parent depth : Nat) (path : String) (seq : Nat)
    (earlier : List String) (place : Place) : ∀ node : Node,
    (Entry.preorderAll (Entry.ofOutlines parent depth path seq earlier
      (Outline.top schema node))).map Entry.seat =
    (Node.namedAt place node).map
      (Node.seat schema ((Node.namedAt place node).map Prod.fst) seq parent depth)
  | ⟨type, text, named, start, stop, field, children⟩ => by
    by_cases h : named = true
    · -- the node takes the first number, and what lies below it goes on from there
      have hbelow := map_seat_forest schema seq (depth + 1)
        (Entry.pathBelow (some parent) path (Outline.ofNode schema
          ⟨type, text, named, start, stop, field, children⟩).label) (seq + 1) [] place 0 children
      rw [Node.map_seat_cons h, Outline.top_of_named h, Entry.ofOutlines, Entry.ofOutlines,
        Entry.preorderAll, Entry.preorderAll, List.append_nil, Entry.preorder_eq, List.map_cons,
        ← hbelow]
      rfl
    · rw [Node.namedAt_of_anonymous h, Outline.top_of_anonymous h]
      exact map_seat_forest schema parent depth path seq earlier place 0 children

theorem map_seat_forest (schema : Schema) (parent depth : Nat) (path : String) (seq : Nat)
    (earlier : List String) (place : Place) (i : Nat) : ∀ nodes : List Node,
    (Entry.preorderAll (Entry.ofOutlines parent depth path seq earlier
      (Outline.forest schema nodes))).map Entry.seat =
    (Node.namedAtFrom place i nodes).map
      (Node.seat schema ((Node.namedAtFrom place i nodes).map Prod.fst) seq parent depth)
  | [] => rfl
  | node :: rest => by
    have hnode := map_seat_top schema parent depth path seq earlier (place ++ [i]) node
    -- the later children are numbered after as many entries as there are named nodes
    have hlength : (Node.namedAt (place ++ [i]) node).length =
        Outline.sizeAll (Outline.top schema node) := by
      have hseats := congrArg List.length hnode
      have hseqs := congrArg List.length (Entry.map_seq_preorderAll_ofOutlines parent depth path seq
        earlier (Outline.top schema node))
      rw [List.length_map, List.length_map] at hseats
      rw [List.length_map, List.length_range'] at hseqs
      exact hseats.symm.trans hseqs
    rw [Outline.forest, Entry.ofOutlines_append, Entry.preorderAll_append, List.map_append, hnode,
      Node.map_seat_append, hlength,
      map_seat_forest schema parent depth path _ _ place (i + 1) rest]

end

/-! ## Ordinals -/

namespace Entry

lemma ordinal_of_split {parent depth : Nat} {path : String} {seq : Nat} {earlier : List String}
    {os : List Outline} {before after : List Entry} {e : Entry}
    (h : ofOutlines parent depth path seq earlier os = before ++ e :: after) :
    e.ordinal = earlier.count e.type + before.countP fun y => y.type = e.type := by
  induction before generalizing seq earlier os with
  | nil =>
    cases os with
    | nil => cases h
    | cons o rest =>
      rw [ofOutlines, List.nil_append, List.cons.injEq] at h
      obtain ⟨rfl, -⟩ := h
      cases o
      rfl
  | cons b before ih =>
    cases os with
    | nil => cases h
    | cons o rest =>
      rw [ofOutlines, List.cons_append, List.cons.injEq] at h
      obtain ⟨rfl, h⟩ := h
      have htype : (ofOutline seq (some parent) (earlier.count o.type) depth path o).type =
          o.type := by
        cases o
        rfl
      rw [ih h, List.countP_cons, htype, List.count_cons]
      by_cases heq : o.type = e.type
      · simp [heq]
        omega
      · simp [heq]

/-- Among the children of an entry, the ordinal of one counts those of its type before it. -/
lemma ordinal_of_mem_children {o : Outline} {p e : Entry} (hp : p ∈ (root o).preorder)
    (he : e ∈ p.children) :
    e.ordinal = p.children.countP fun y => y.seq < e.seq ∧ y.type = e.type := by
  obtain ⟨before, after, hsplit⟩ := List.append_of_mem he
  have hseq := pairwise_seq_children hp
  have hordinal := ordinal_of_split ((children_of_mem_root hp).symm.trans hsplit)
  rw [hsplit, List.pairwise_append, List.pairwise_cons] at hseq
  obtain ⟨-, ⟨hafter, -⟩, hbefore⟩ := hseq
  have hearlier : before.countP (fun y => y.seq < e.seq ∧ y.type = e.type) =
      before.countP fun y => y.type = e.type := by
    refine List.countP_congr fun y hy => ?_
    simp [hbefore y hy e List.mem_cons_self]
  have hlater : after.countP (fun y => y.seq < e.seq ∧ y.type = e.type) = 0 := by
    rw [List.countP_eq_zero]
    intro y hy hboth
    rw [decide_eq_true_eq] at hboth
    exact Nat.lt_asymm hboth.1 (hafter y hy)
  rw [hordinal, hsplit, List.countP_append, List.countP_cons, hearlier, hlater]
  simp

/-- The children of an entry are the entries that give it as their parent. -/
lemma perm_children {o : Outline} {p : Entry} (hp : p ∈ (root o).preorder) :
    ((root o).preorder.filter fun y => y.parent = some p.seq).Perm p.children := by
  have hwell := wellPlaced_root o
  have hnodup := List.Nodup.of_map _ hwell.distinct
  have hchildren := List.Nodup.of_map _ (hwell.of_mem hp).nodup_children
  refine (List.perm_ext_iff_of_nodup (hnodup.filter _) hchildren).2 fun y => ?_
  rw [List.mem_filter, decide_eq_true_eq]
  constructor
  · rintro ⟨hy, hparent⟩
    rcases mem_preorder.1 hy with rfl | hy
    · cases o
      cases hparent
    · exact (hwell.mem_children_iff hp hy).2 hparent
  · intro hy
    exact ⟨child_mem_preorder hp hy, hwell.parent_eq p hp y hy⟩

/-- **The ordinal counts the earlier siblings of the type.** -/
theorem ordinal_eq_countP {o : Outline} {e : Entry} (he : e ∈ (root o).preorder) :
    e.ordinal = (root o).preorder.countP fun y =>
      y.seq < e.seq ∧ y.parent = e.parent ∧ y.type = e.type := by
  rcases mem_preorder.1 he with rfl | hbelow
  · have hzero : (root o).preorder.countP (fun y =>
        y.seq < (root o).seq ∧ y.parent = (root o).parent ∧ y.type = (root o).type) = 0 := by
      rw [List.countP_eq_zero]
      cases o
      simp [root, ofOutline]
    rw [hzero]
    cases o
    rfl
  · obtain ⟨p, hp, hep⟩ := exists_parent hbelow
    have hparent := (wellPlaced_root o).parent_eq p hp e hep
    rw [ordinal_of_mem_children hp hep, ← (perm_children hp).countP_eq, List.countP_filter, hparent]
    refine List.countP_congr fun y _ => ?_
    simp only [Bool.and_eq_true, decide_eq_true_eq]
    tauto

end Entry

/-! ## The walks agree -/

/-- The named nodes of a tree with their places, in document order. -/
def Node.namedPlaces (root : Node) : List (Place × Node) := namedAt [] root

/-- The entries of a tree that is compared, in document order. -/
def Node.entries (schema : Schema) (root : Node) : List Entry :=
  (Entry.root (.ofNode schema root)).preorder

/-- Whether an entry is that of the named node at a place, which is the one with number `k`. -/
structure Entry.StandsAt (schema : Schema) (root : Node) (k : Nat) (x : Place × Node) (e : Entry) :
    Prop where
  seq_eq : e.seq = k
  extracted_eq : e.extracted = Extractor.extract ⟨schema, none⟩ x.2
  /-- The parent is the nearest named node above. -/
  parent_iff : ∀ j, e.parent = some j ↔
    Place.IsNearest (root.namedPlaces.map Prod.fst) j x.1
  /-- The depth counts the named nodes above. -/
  depth_eq : e.depth = (root.namedPlaces.map Prod.fst).countP fun q => q.Above x.1
  /-- The ordinal counts the earlier entries of the type with the same parent. -/
  ordinal_eq : e.ordinal = (root.entries schema).countP fun y =>
    y.seq < e.seq ∧ y.parent = e.parent ∧ y.type = e.type

namespace Node

variable {schema : Schema} {root : Node}

lemma not_above_nil (q : Place) : ¬q.Above [] := fun h => h.2 (List.prefix_nil.1 h.1)

/-- The seats of all entries of a tree. -/
lemma map_seat_entries (schema : Schema) (h : root.named = true) :
    (root.entries schema).map Entry.seat = root.namedPlaces.map fun x =>
      (Place.nearest? x.1 (root.namedPlaces.map Prod.fst),
        (root.namedPlaces.map Prod.fst).countP (fun q => q.Above x.1),
        Extractor.extract ⟨schema, none⟩ x.2) := by
  have hbelow := map_seat_forest schema 0 1 "" 1 [] [] 0 root.children
  have hentries : root.entries schema = Entry.root (.ofNode schema root) ::
      Entry.preorderAll (Entry.ofOutlines 0 1 "" 1 [] (Outline.forest schema root.children)) := rfl
  have hnone := Place.nearest?_eq_none_iff.2 fun q (_ : q ∈ root.namedPlaces.map Prod.fst) =>
    not_above_nil q
  have hzero := Place.countP_above_eq_zero fun q (_ : q ∈ root.namedPlaces.map Prod.fst) =>
    not_above_nil q
  rw [namedPlaces, namedAt_of_named h] at hnone hzero ⊢
  rw [hentries, List.map_cons, hbelow, List.map_cons]
  congr 1
  · rw [hnone, hzero]
    rfl
  · refine List.map_congr_left fun x hx => ?_
    have habove : Place.Above [] x.1 := above_of_mem_namedAtFrom hx
    rw [seat, List.map_cons, Place.nearest?, List.countP_cons]
    simp only [habove, if_true, decide_true]
    cases Place.nearest? x.1 ((namedAtFrom [] 0 root.children).map Prod.fst) with
    | none => simp [Nat.add_comm 1]
    | some j => simp [Nat.add_comm 1]

lemma inOrder_namedPlaces (root : Node) : Place.InOrder (root.namedPlaces.map Prod.fst) :=
  (inOrder_located [] root).sublist (List.filter_sublist.map Prod.fst)

lemma map_snd_namedPlaces (root : Node) :
    root.namedPlaces.map Prod.snd = root.preorder.filter fun n => n.named := by
  rw [namedPlaces, namedAt, ← map_snd_located [] root, List.filter_map]
  rfl

lemma length_entries (schema : Schema) (h : root.named = true) :
    (root.entries schema).length = root.namedPlaces.length := by
  have hlength := congrArg List.length (map_seat_entries schema h)
  rwa [List.length_map, List.length_map] at hlength

/-- The entries of a tree are its named nodes, one for one. -/
lemma standsAt_entries {k : Nat} {e : Entry} {x : Place × Node} (h : root.named = true)
    (he : (root.entries schema)[k]? = some e) (hx : root.namedPlaces[k]? = some x) :
    e.StandsAt schema root k x := by
  have hseat := congrArg (·[k]?) (map_seat_entries schema h)
  simp only [List.getElem?_map, he, hx, Option.map_some, Option.some.injEq, Entry.seat,
    Prod.mk.injEq] at hseat
  obtain ⟨hparent, hdepth, hextracted⟩ := hseat
  refine ⟨?_, hextracted, fun j => ?_, hdepth, ?_⟩
  · have hseqs := Entry.map_seq_preorder_ofOutline 0 none 0 0 "" (.ofNode schema root)
    have hseq : ((root.entries schema).map Entry.seq)[k]? = some e.seq := by
      rw [List.getElem?_map, he, Option.map_some]
    rw [entries, Entry.root, hseqs] at hseq
    obtain ⟨hlt, hk⟩ := List.getElem?_eq_some_iff.1 hseq
    rw [List.getElem_range'] at hk
    omega
  · rw [hparent, (inOrder_namedPlaces root).nearest?_eq_some_iff]
  · exact Entry.ordinal_eq_countP (List.mem_of_getElem? he)

lemma mem_namedPlaces_iff {root : Node} {p : Place} {n : Node} : (p, n) ∈ root.namedPlaces ↔
    root.descend? (p.map Int.ofNat) = some n ∧ n.named = true := by
  simp [namedPlaces, namedAt, List.mem_filter, mem_located_iff]

/-- How the walks through a tree go together. -/
structure WalksAgree (schema : Schema) (root : Node) : Prop where
  /-- A walk with a stack visits the nodes in document order. -/
  walk_eq : root.walk = root.preorder
  /-- A walk with a stack makes the entries, which are numbered as they are taken off. -/
  number_eq : (Waiting.number schema 0 [⟨root, none, 0, 0, ""⟩]).map
    (fun x => x.2.entry schema x.1) = root.entries schema
  /-- The places are those of the named nodes, -/
  mem_places : ∀ p n, (p, n) ∈ root.namedPlaces ↔
    root.descend? (p.map Int.ofNat) = some n ∧ n.named = true
  /-- each once and in document order. -/
  places_inOrder : Place.InOrder (root.namedPlaces.map Prod.fst)
  nodes_eq : root.namedPlaces.map Prod.snd = root.preorder.filter fun n => n.named
  /-- There is one entry for each place. -/
  length_eq : (root.entries schema).length = root.namedPlaces.length
  standsAt : ∀ (k : Nat) e x, (root.entries schema)[k]? = some e → root.namedPlaces[k]? = some x →
    e.StandsAt schema root k x
  /-- Extraction says the same of the named nodes as their entries do. -/
  extractAll_eq : ∀ limit, (root.entries schema).map (fun e => (e.type, e.outline.intents)) =
    (Extractor.extractAll ⟨schema, limit⟩ root).map fun n => (n.nodeType, n.intents)
  /-- Extraction by type takes anonymous nodes as well. -/
  extractByType_eq : ∀ (x : Extractor) (types : List String), x.extractByType root types =
    (root.preorder.filter fun n => types.contains n.type).map x.extract
  extractByType_eq_filter : ∀ (x : Extractor) (types : List String),
    (∀ n ∈ root.preorder, n.named = false → n.type ∉ types) →
    x.extractByType root types = (x.extractAll root).filter fun n => types.contains n.nodeType

/-- The entries say of the named nodes what extraction says of them. -/
lemma extractAll_eq_entries (h : root.named = true) (limit : Option Int) :
    (root.entries schema).map (fun e => (e.type, e.outline.intents)) =
      (Extractor.extractAll ⟨schema, limit⟩ root).map fun n => (n.nodeType, n.intents) := by
  have hextracted : (root.entries schema).map Entry.extracted =
      root.namedPlaces.map fun x => Extractor.extract ⟨schema, none⟩ x.2 := by
    have hseats := congrArg (List.map fun seat => seat.2.2) (map_seat_entries schema h)
    rw [List.map_map, List.map_map] at hseats
    exact hseats
  have hpairs := congrArg (List.map fun n => (n.nodeType, n.intents)) hextracted
  rw [List.map_map, List.map_map] at hpairs
  refine hpairs.trans ?_
  rw [Extractor.extractAll, Extractor.namedNodes, walk_eq, ← map_snd_namedPlaces, List.map_map,
    List.map_map]
  rfl

/-- Without anonymous nodes of the types, extraction by type picks from the named nodes. -/
lemma extractByType_eq_filter_extractAll (x : Extractor) (types : List String)
    (hnamed : ∀ n ∈ root.preorder, n.named = false → n.type ∉ types) :
    x.extractByType root types = (x.extractAll root).filter fun n => types.contains n.nodeType := by
  have hfilter : (root.preorder.filter fun n => types.contains n.type) =
      (root.preorder.filter fun n => n.named).filter fun n => types.contains n.type := by
    rw [List.filter_filter]
    refine List.filter_congr fun n hn => ?_
    cases hn' : n.named with
    | true => simp
    | false => simpa using hnamed n hn hn'
  rw [Extractor.extractByType, Extractor.nodesByType, Extractor.extractAll, Extractor.namedNodes,
    walk_eq, hfilter, List.filter_map]
  rfl

end Node

/-- **The walks through a tree agree.** -/
theorem walksAgree_of_named (schema : Schema) (root : Node) (h : root.named = true) :
    root.WalksAgree schema where
  walk_eq := Node.walk_eq root
  number_eq := by
    rw [Waiting.map_entry_number, Waiting.entries, Waiting.entries, List.append_nil]
    rfl
  mem_places _ _ := Node.mem_namedPlaces_iff
  places_inOrder := Node.inOrder_namedPlaces root
  nodes_eq := Node.map_snd_namedPlaces root
  length_eq := Node.length_entries schema h
  standsAt _ _ _ he hx := Node.standsAt_entries h he hx
  extractAll_eq := Node.extractAll_eq_entries h
  extractByType_eq x types := by
    rw [Extractor.extractByType, Extractor.nodesByType, Node.walk_eq]
  extractByType_eq_filter := Node.extractByType_eq_filter_extractAll

/-- A tree in which named nodes stand below anonymous ones. -/
def Node.wrapped : Node :=
  let node (type : String) (named : Bool) (children : List Node) : Node :=
    ⟨type, type, named, ⟨0, 0⟩, ⟨0, 0⟩, none, children⟩
  node "program" true
    [node "(" false [node "name" true [], node "[" false [node "call" true [node "name" true []]]],
     node "name" true []]

/-- The anonymous nodes leave no gaps in the numbers and no levels in the depths. -/
theorem walksAgree_wrapped : Node.wrapped.named = true ∧ Node.wrapped.WalksAgree ⟨none, []⟩ ∧
    Node.wrapped.namedPlaces.map Prod.fst = [[], [0, 0], [0, 1, 0], [0, 1, 0, 0], [1]] ∧
    (Node.wrapped.entries ⟨none, []⟩).map (fun e => (e.seq, e.parent, e.ordinal, e.depth)) =
      [(0, none, 0, 0), (1, some 0, 0, 1), (2, some 0, 0, 1), (3, some 2, 0, 2),
        (4, some 0, 1, 1)] ∧
    Extractor.extractByType ⟨⟨none, []⟩, none⟩ Node.wrapped ["name"] =
      (Extractor.extractAll ⟨⟨none, []⟩, none⟩ Node.wrapped).filter
        fun n => ["name"].contains n.nodeType := by
  have hagree := walksAgree_of_named ⟨none, []⟩ Node.wrapped rfl
  refine ⟨rfl, hagree, rfl, rfl, hagree.extractByType_eq_filter _ ["name"] ?_⟩
  decide +kernel

end TreeDiff
