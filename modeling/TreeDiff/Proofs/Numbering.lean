/-
# The places of the entries of a tree

An entry carries its place in its tree: its number, the number of its parent and its depth.  The
matching tells entries apart by their numbers alone, so everything that is said about it rests on
two facts of this file: the entries of an outline have different numbers, and an entry sits where
its parent and its depth say.  The entries below two entries of one tree are then nested or have
nothing in common.  Besides, numbers and ordinals grow from sibling to sibling, and a breadcrumb
continues that of the parent.
-/
import Mathlib.Data.List.Nodup
import Mathlib.Data.List.Pairwise
import Mathlib.Tactic.Lemma
import TreeDiff.Diff.Entry

namespace TreeDiff

namespace Entry

/-- The entries below an entry, in document order. -/
def descendants (e : Entry) : List Entry := preorderAll e.children

lemma preorder_eq (e : Entry) : e.preorder = e :: e.descendants := by
  cases e
  rfl

lemma preorderAll_eq_flatMap (es : List Entry) : preorderAll es = es.flatMap preorder := by
  induction es with
  | nil => rfl
  | cons e rest ih => rw [preorderAll, ih, List.flatMap_cons]

lemma mem_preorder {e x : Entry} : x ∈ e.preorder ↔ x = e ∨ x ∈ e.descendants := by
  rw [preorder_eq, List.mem_cons]

lemma mem_descendants {e x : Entry} : x ∈ e.descendants ↔ ∃ c ∈ e.children, x ∈ c.preorder := by
  rw [descendants, preorderAll_eq_flatMap, List.mem_flatMap]

lemma mem_preorder_self (e : Entry) : e ∈ e.preorder := mem_preorder.2 (Or.inl rfl)

lemma mem_preorder_of_mem_descendants {e x : Entry} (h : x ∈ e.descendants) : x ∈ e.preorder :=
  mem_preorder.2 (Or.inr h)

lemma mem_descendants_of_mem_children {e c : Entry} (h : c ∈ e.children) : c ∈ e.descendants :=
  mem_descendants.2 ⟨c, h, mem_preorder_self c⟩

lemma sublist_preorderAll (es : List Entry) : es.Sublist (preorderAll es) := by
  induction es with
  | nil => exact List.Sublist.refl _
  | cons e rest ih =>
    rw [preorderAll, preorder_eq, List.cons_append]
    exact (ih.trans (List.sublist_append_right _ _)).cons_cons e

/-- Induction from the children of an entry to the entry. -/
@[elab_as_elim]
theorem induction_children {motive : Entry → Prop}
    (step : ∀ e : Entry, (∀ c ∈ e.children, motive c) → motive e) : ∀ e : Entry, motive e
  | ⟨_, _, _, _, _, _, children⟩ => step _ fun c (hc : c ∈ children) =>
      have := List.sizeOf_lt_of_mem hc
      induction_children step c

lemma descendants_trans {e x y : Entry} (hx : x ∈ e.preorder) (hy : y ∈ x.descendants) :
    y ∈ e.descendants := by
  induction e using induction_children with
  | step e ih =>
    rcases mem_preorder.1 hx with rfl | hx
    · exact hy
    · obtain ⟨c, hc, hxc⟩ := mem_descendants.1 hx
      exact mem_descendants.2 ⟨c, hc, mem_preorder_of_mem_descendants (ih c hc hxc)⟩

lemma preorder_trans {e x y : Entry} (hx : x ∈ e.preorder) (hy : y ∈ x.preorder) :
    y ∈ e.preorder := by
  rcases mem_preorder.1 hy with rfl | hy
  · exact hx
  · exact mem_preorder_of_mem_descendants (descendants_trans hx hy)

lemma child_mem_descendants {e p c : Entry} (hp : p ∈ e.preorder) (hc : c ∈ p.children) :
    c ∈ e.descendants := descendants_trans hp (mem_descendants_of_mem_children hc)

lemma child_mem_preorder {e p c : Entry} (hp : p ∈ e.preorder) (hc : c ∈ p.children) :
    c ∈ e.preorder := mem_preorder_of_mem_descendants (child_mem_descendants hp hc)

/-- The tree of an entry is a part of the trees above it, in the same order. -/
lemma preorder_sublist {e x : Entry} (hx : x ∈ e.preorder) : x.preorder.Sublist e.preorder := by
  induction e using induction_children with
  | step e ih =>
    rcases mem_preorder.1 hx with rfl | hx
    · exact List.Sublist.refl _
    · obtain ⟨c, hc, hxc⟩ := mem_descendants.1 hx
      refine (ih c hc hxc).trans ?_
      rw [preorder_eq e, descendants, preorderAll_eq_flatMap, List.flatMap_def]
      exact (List.sublist_flatten_of_mem (List.mem_map_of_mem hc)).cons e

/-- Induction from the top of a tree down to its entries. -/
lemma forall_mem_preorder {root : Entry} {motive : Entry → Prop} (hroot : motive root)
    (step : ∀ p ∈ root.preorder, motive p → ∀ c ∈ p.children, motive c) :
    ∀ e ∈ root.preorder, motive e := by
  induction root using induction_children with
  | step root ih =>
    intro e he
    rcases mem_preorder.1 he with rfl | he
    · exact hroot
    · obtain ⟨c, hc, hec⟩ := mem_descendants.1 he
      have hcroot := child_mem_preorder (mem_preorder_self root) hc
      exact ih c hc (step root (mem_preorder_self root) hroot c hc)
        (fun p hp => step p (preorder_trans hcroot hp)) e hec

lemma exists_parent {e x : Entry} (hx : x ∈ e.descendants) : ∃ p ∈ e.preorder, x ∈ p.children := by
  induction e using induction_children with
  | step e ih =>
    obtain ⟨c, hc, hxc⟩ := mem_descendants.1 hx
    rcases mem_preorder.1 hxc with rfl | hxc
    · exact ⟨e, mem_preorder_self e, hc⟩
    · obtain ⟨p, hp, hxp⟩ := ih c hc hxc
      have hce := child_mem_preorder (mem_preorder_self e) hc
      exact ⟨p, preorder_trans hce hp, hxp⟩

/-- A tree of entries whose numbers tell its entries apart, and in which every entry sits where its
parent and its depth say. -/
structure WellPlaced (root : Entry) : Prop where
  distinct : (root.preorder.map seq).Nodup
  parent_eq : ∀ p ∈ root.preorder, ∀ c ∈ p.children, c.parent = some p.seq
  depth_eq : ∀ p ∈ root.preorder, ∀ c ∈ p.children, c.depth = p.depth + 1

namespace WellPlaced

variable {root : Entry}

/-- Entries of one tree are told apart by their numbers. -/
lemma eq_of_seq (h : root.WellPlaced) {x y : Entry} (hx : x ∈ root.preorder)
    (hy : y ∈ root.preorder) (hxy : x.seq = y.seq) : x = y :=
  List.inj_on_of_nodup_map h.distinct hx hy hxy

lemma of_mem (h : root.WellPlaced) {e : Entry} (he : e ∈ root.preorder) : e.WellPlaced :=
  ⟨h.distinct.sublist ((preorder_sublist he).map seq),
    fun p hp => h.parent_eq p (preorder_trans he hp),
    fun p hp => h.depth_eq p (preorder_trans he hp)⟩

lemma of_mem_children (h : root.WellPlaced) {c : Entry} (hc : c ∈ root.children) : c.WellPlaced :=
  h.of_mem (child_mem_preorder (mem_preorder_self root) hc)

lemma nodup_children (h : root.WellPlaced) : (root.children.map seq).Nodup := by
  have hdis := h.distinct
  rw [preorder_eq, List.map_cons, List.nodup_cons] at hdis
  exact hdis.2.sublist ((sublist_preorderAll root.children).map seq)

lemma pairwise_seq_descendants (h : root.WellPlaced) :
    root.descendants.Pairwise fun x y => x.seq ≠ y.seq := by
  have hdis := h.distinct
  rw [preorder_eq, List.map_cons, List.nodup_cons] at hdis
  exact List.pairwise_map.1 hdis.2

/-- No entry lies below itself. -/
lemma seq_ne_of_mem_descendants (h : root.WellPlaced) {x : Entry} (hx : x ∈ root.descendants) :
    x.seq ≠ root.seq := by
  intro hseq
  have hdis := h.distinct
  rw [preorder_eq, List.map_cons, List.nodup_cons] at hdis
  exact hdis.1 (hseq ▸ List.mem_map_of_mem hx)

/-- Nothing in a tree lies nearer to the roots than its top. -/
lemma depth_le (h : root.WellPlaced) {x : Entry} (hx : x ∈ root.preorder) :
    root.depth ≤ x.depth := by
  induction root using induction_children with
  | step root ih =>
    rcases mem_preorder.1 hx with rfl | hx
    · exact Nat.le_refl _
    · obtain ⟨c, hc, hxc⟩ := mem_descendants.1 hx
      have hcx := ih c hc (h.of_mem_children hc) hxc
      have hdepth := h.depth_eq root (mem_preorder_self root) c hc
      omega

lemma depth_lt (h : root.WellPlaced) {x : Entry} (hx : x ∈ root.descendants) :
    root.depth < x.depth := by
  obtain ⟨c, hc, hxc⟩ := mem_descendants.1 hx
  rw [← Nat.succ_le_iff, Nat.succ_eq_add_one, ← h.depth_eq root (mem_preorder_self root) c hc]
  exact (h.of_mem_children hc).depth_le hxc

/-- An entry lies right below one entry only. -/
lemma eq_of_child (h : root.WellPlaced) {p q c : Entry} (hp : p ∈ root.preorder)
    (hq : q ∈ root.preorder) (hcp : c ∈ p.children) (hcq : c ∈ q.children) : p = q :=
  h.eq_of_seq hp hq (Option.some.inj ((h.parent_eq p hp c hcp).symm.trans (h.parent_eq q hq c hcq)))

/-- A tree is entered at its top. -/
lemma eq_of_child_mem_preorder (h : root.WellPlaced) {s p c : Entry} (hs : s ∈ root.preorder)
    (hp : p ∈ root.preorder) (hc : c ∈ p.children) (hps : p ∉ s.preorder) (hcs : c ∈ s.preorder) :
    c = s := by
  refine (mem_preorder.1 hcs).resolve_right fun hbelow => hps ?_
  obtain ⟨q, hq, hcq⟩ := exists_parent hbelow
  rwa [h.eq_of_child hp (preorder_trans hs hq) hc hcq]

/-- The trees of two children have no number in common. -/
lemma eq_of_mem_children (h : root.WellPlaced) {c d x y : Entry} (hc : c ∈ root.children)
    (hd : d ∈ root.children) (hx : x ∈ c.preorder) (hy : y ∈ d.preorder) (hxy : x.seq = y.seq) :
    c = d := by
  have hdis := h.distinct
  rw [preorder_eq, descendants, preorderAll_eq_flatMap, List.map_cons, List.nodup_cons,
    List.map_flatMap, List.nodup_flatMap] at hdis
  have hsymm : Std.Symm (Function.onFun List.Disjoint fun e : Entry => e.preorder.map seq) :=
    ⟨fun _ _ h _ hd hc => h hc hd⟩
  by_contra hne
  exact hdis.2.2.forall hc hd hne (List.mem_map_of_mem hx) (hxy ▸ List.mem_map_of_mem hy)

/-- **Subtrees are nested or disjoint.**  If an entry lies in the trees of two entries, then one of
the two lies in the tree of the other. -/
theorem nested (h : root.WellPlaced) {x y z : Entry} (hx : x ∈ root.preorder)
    (hy : y ∈ root.preorder) (hzx : z ∈ x.preorder) (hzy : z ∈ y.preorder) :
    x ∈ y.preorder ∨ y ∈ x.preorder := by
  induction root using induction_children with
  | step root ih =>
    rcases mem_preorder.1 hx with rfl | hx'
    · exact Or.inr hy
    rcases mem_preorder.1 hy with rfl | hy'
    · exact Or.inl hx
    obtain ⟨c, hc, hxc⟩ := mem_descendants.1 hx'
    obtain ⟨d, hd, hyd⟩ := mem_descendants.1 hy'
    obtain rfl := h.eq_of_mem_children hc hd (preorder_trans hxc hzx) (preorder_trans hyd hzy) rfl
    exact ih c hc (h.of_mem_children hc) hxc hyd

/-- The entry above another one is the one whose number it gives as its parent. -/
lemma mem_children_iff (h : root.WellPlaced) {p x : Entry} (hp : p ∈ root.preorder)
    (hx : x ∈ root.descendants) : x ∈ p.children ↔ x.parent = some p.seq := by
  constructor
  · exact h.parent_eq p hp x
  · intro hpar
    obtain ⟨q, hq, hxq⟩ := exists_parent hx
    have hseq := (h.parent_eq q hq x hxq).symm.trans hpar
    rwa [← h.eq_of_seq hq hp (Option.some.inj hseq)]

end WellPlaced

/-! ## The entries of an outline -/

mutual

/-- The entries of an outline are numbered one after the other in document order. -/
theorem map_seq_preorder_ofOutline (seq : Nat) (parent : Option Nat) (ordinal depth : Nat)
    (path : String) : ∀ o : Outline,
    (ofOutline seq parent ordinal depth path o).preorder.map Entry.seq = List.range' seq o.size
  | ⟨_, _, _, _, _, children⟩ => by
    rw [ofOutline, preorder, List.map_cons,
      map_seq_preorderAll_ofOutlines _ _ _ (seq + 1) [] children, Outline.size, List.range'_succ]

theorem map_seq_preorderAll_ofOutlines (parent depth : Nat) (path : String) (seq : Nat)
    (earlier : List String) : ∀ os : List Outline,
    (preorderAll (ofOutlines parent depth path seq earlier os)).map Entry.seq =
      List.range' seq (Outline.sizeAll os)
  | [] => rfl
  | o :: rest => by
    have ih := map_seq_preorder_ofOutline seq (some parent) (earlier.count o.type) depth path o
    have ihs := map_seq_preorderAll_ofOutlines parent depth path (seq + o.size) (o.type :: earlier)
      rest
    rw [ofOutlines, preorderAll, List.map_append, ih, ihs, Outline.sizeAll,
      List.range'_append_1]

end

/-- Siblings give their parent, lie one level below it, and continue its breadcrumb. -/
lemma place_of_mem_ofOutlines {parent depth : Nat} {path : String} {seq : Nat}
    {earlier : List String} {os : List Outline} {c : Entry}
    (hc : c ∈ ofOutlines parent depth path seq earlier os) :
    c.parent = some parent ∧ c.depth = depth ∧ c.path = path := by
  induction os generalizing seq earlier with
  | nil => simp [ofOutlines] at hc
  | cons o rest ih =>
    rw [ofOutlines, List.mem_cons] at hc
    rcases hc with rfl | hc
    · cases o
      exact ⟨rfl, rfl, rfl⟩
    · exact ih hc

lemma count_le_ordinal {parent depth : Nat} {path : String} {seq : Nat}
    {earlier : List String} {os : List Outline} {c : Entry}
    (hc : c ∈ ofOutlines parent depth path seq earlier os) :
    earlier.count c.type ≤ c.ordinal := by
  induction os generalizing seq earlier with
  | nil => simp [ofOutlines] at hc
  | cons o rest ih =>
    rw [ofOutlines, List.mem_cons] at hc
    rcases hc with rfl | hc
    · cases o
      exact Nat.le_refl _
    · exact Nat.le_trans List.count_le_count_cons (ih hc)

/-- Siblings of one type are numbered in their order. -/
lemma pairwise_ordinal_ofOutlines (parent depth : Nat) (path : String) (seq : Nat)
    (earlier : List String) (os : List Outline) :
    (ofOutlines parent depth path seq earlier os).Pairwise fun a b =>
      a.type = b.type → a.ordinal < b.ordinal := by
  induction os generalizing seq earlier with
  | nil => exact List.Pairwise.nil
  | cons o rest ih =>
    rw [ofOutlines, List.pairwise_cons]
    refine ⟨fun c hc htype => ?_, ih _ _⟩
    have hcount := count_le_ordinal hc
    rw [← htype] at hcount
    cases o
    -- the first of the siblings is one of those of its type that stand before the others
    simp only [ofOutline, type, List.count_cons_self] at hcount ⊢
    omega

mutual

/-- Every entry of an outline is the entry of some outline at its own place. -/
theorem eq_ofOutline_of_mem_preorder (seq : Nat) (parent : Option Nat) (ordinal depth : Nat)
    (path : String) : ∀ o : Outline, ∀ e ∈ (ofOutline seq parent ordinal depth path o).preorder,
    e = ofOutline e.seq e.parent e.ordinal e.depth e.path e.outline
  | ⟨_, _, _, _, _, children⟩, e, he => by
    rw [ofOutline, preorder, List.mem_cons] at he
    rcases he with rfl | he
    · rfl
    · exact eq_ofOutline_of_mem_preorderAll _ _ _ _ _ children e he

theorem eq_ofOutline_of_mem_preorderAll (parent depth : Nat) (path : String) (seq : Nat)
    (earlier : List String) : ∀ os : List Outline,
    ∀ e ∈ preorderAll (ofOutlines parent depth path seq earlier os),
    e = ofOutline e.seq e.parent e.ordinal e.depth e.path e.outline
  | [], e, he => by simp [ofOutlines, preorderAll] at he
  | o :: rest, e, he => by
    rw [ofOutlines, preorderAll, List.mem_append] at he
    rcases he with he | he
    · exact eq_ofOutline_of_mem_preorder _ _ _ _ _ o e he
    · exact eq_ofOutline_of_mem_preorderAll _ _ _ _ _ rest e he

end

/-- The breadcrumb of what lies right below an entry. -/
def pathOfChildren (e : Entry) : String := pathBelow e.parent e.path e.outline.label

/-- The children of an entry of an outline are the entries of the outlines below it. -/
lemma children_of_mem_root {o : Outline} {e : Entry} (he : e ∈ (root o).preorder) :
    e.children = ofOutlines e.seq (e.depth + 1) e.pathOfChildren (e.seq + 1) []
      e.outline.children := by
  have heq := eq_ofOutline_of_mem_preorder 0 none 0 0 "" o e he
  rw [pathOfChildren]
  generalize e.seq = seq at *
  generalize e.parent = parent at *
  generalize e.ordinal = ordinal at *
  generalize e.depth = depth at *
  generalize e.path = path at *
  generalize e.outline = outline at *
  subst heq
  cases outline
  rfl

/-- The numbers of the entries of an outline grow in document order. -/
lemma pairwise_seq_preorder_root (o : Outline) :
    (root o).preorder.Pairwise fun a b => a.seq < b.seq := by
  have hrange := List.pairwise_lt_range' (s := 0) (n := o.size)
  rw [← map_seq_preorder_ofOutline 0 none 0 0 "" o] at hrange
  exact List.pairwise_map.1 hrange

/-- **The entries of an outline are well placed.** -/
theorem wellPlaced_root (o : Outline) : (root o).WellPlaced where
  distinct := by
    rw [root, map_seq_preorder_ofOutline]
    exact List.nodup_range'
  parent_eq p hp c hc := (place_of_mem_ofOutlines (children_of_mem_root hp ▸ hc)).1
  depth_eq p hp c hc := (place_of_mem_ofOutlines (children_of_mem_root hp ▸ hc)).2.1

/-- The children of an entry of an outline continue its breadcrumb. -/
lemma path_of_mem_children {o : Outline} {p c : Entry} (hp : p ∈ (root o).preorder)
    (hc : c ∈ p.children) : c.path = p.pathOfChildren :=
  (place_of_mem_ofOutlines (children_of_mem_root hp ▸ hc)).2.2

/-- Siblings of one type are numbered in their order. -/
lemma pairwise_ordinal_children {o : Outline} {p : Entry} (hp : p ∈ (root o).preorder) :
    p.children.Pairwise fun a b => a.type = b.type → a.ordinal < b.ordinal := by
  rw [children_of_mem_root hp]
  exact pairwise_ordinal_ofOutlines _ _ _ _ _ _

/-- The children of an entry of an outline are numbered in their order. -/
lemma pairwise_seq_children {o : Outline} {p : Entry} (hp : p ∈ (root o).preorder) :
    p.children.Pairwise fun a b => a.seq < b.seq := by
  have htree := (pairwise_seq_preorder_root o).sublist (preorder_sublist hp)
  rw [preorder_eq, List.pairwise_cons] at htree
  exact htree.2.sublist (sublist_preorderAll p.children)

end Entry

end TreeDiff
