/-
# Places in a tree

The nodes of a tree are values, and equal nodes may stand at different places.  So what is said
about a walk through a tree is said about places: the child indexes on the way from the root.  In
document order no place comes before a place above it.  The nearest of some places above a given one
is therefore the last of those above it.
-/
import Mathlib.Data.List.Infix
import Mathlib.Data.List.Nodup
import Mathlib.Tactic.Lemma
import TreeDiff.Tree.Basic

namespace TreeDiff

/-- A place in a tree: the child indexes on the way to it. -/
abbrev Place := List Nat

namespace Place

/-- Whether a place lies above another one. -/
def Above (q p : Place) : Prop := q <+: p ∧ q ≠ p

instance (q p : Place) : Decidable (Above q p) := inferInstanceAs (Decidable (q <+: p ∧ q ≠ p))

/-- Whether the place at an index is the one right above a place among the given ones. -/
def IsNearest (places : List Place) (j : Nat) (p : Place) : Prop :=
  ∃ q, places[j]? = some q ∧ q.Above p ∧ ∀ r ∈ places, r.Above p → r <+: q

/-- Whether places stand in document order: none comes before one above it, or twice. -/
def InOrder (places : List Place) : Prop := places.Pairwise fun a b => ¬b <+: a

/-- The index of the last of the given places that lies above a place. -/
def nearest? (p : Place) : List Place → Option Nat
  | [] => none
  | q :: rest =>
    match nearest? p rest with
    | some j => some (j + 1)
    | none => if q.Above p then some 0 else none

variable {p q : Place} {places others : List Place} {j : Nat}

lemma nearest?_eq_none_iff : nearest? p places = none ↔ ∀ q ∈ places, ¬q.Above p := by
  induction places with
  | nil => simp [nearest?]
  | cons q rest ih =>
    rw [nearest?, List.forall_mem_cons, ← ih]
    cases nearest? p rest <;> by_cases hq : q.Above p <;> simp [hq]

lemma countP_above_eq_zero (h : ∀ q ∈ places, ¬q.Above p) :
    places.countP (fun q => q.Above p) = 0 := by
  simpa [List.countP_eq_zero] using h

lemma nearest?_append : nearest? p (places ++ others) =
    ((nearest? p others).map (places.length + ·)).or (nearest? p places) := by
  induction places with
  | nil => cases h : nearest? p others <;> simp [nearest?, h]
  | cons q rest ih =>
    rw [List.cons_append, nearest?, ih]
    cases nearest? p others with
    | none => simp [nearest?]
    | some j =>
      simp only [Option.map_some, Option.some_or, List.length_cons]
      congr 1
      omega

lemma nearest?_spec (h : nearest? p places = some j) : ∃ before q after,
    places = before ++ q :: after ∧ before.length = j ∧ q.Above p ∧ ∀ r ∈ after, ¬r.Above p := by
  induction places generalizing j with
  | nil => cases h
  | cons q rest ih =>
    rw [nearest?] at h
    cases hrest : nearest? p rest with
    | some k =>
      rw [hrest] at h
      cases h
      obtain ⟨before, r, after, rfl, rfl, hr, hafter⟩ := ih hrest
      exact ⟨q :: before, r, after, rfl, rfl, hr, hafter⟩
    | none =>
      simp only [hrest, Option.ite_none_right_eq_some, Option.some.injEq] at h
      obtain ⟨hq, rfl⟩ := h
      exact ⟨[], q, rest, rfl, rfl, hq, nearest?_eq_none_iff.1 hrest⟩

/-- In document order the last place above another one is the nearest. -/
lemma InOrder.isNearest_of_nearest? (h : InOrder places) (hj : nearest? p places = some j) :
    IsNearest places j p := by
  obtain ⟨before, q, after, rfl, rfl, hq, hafter⟩ := nearest?_spec hj
  refine ⟨q, by simp, hq, fun r hr habove => ?_⟩
  rcases List.mem_append.1 hr with hr | hr
  · -- both lie on the way to the given place, and the later one is not above the earlier one
    refine (List.prefix_or_prefix_of_prefix habove.1 hq.1).resolve_right ?_
    exact (List.pairwise_append.1 h).2.2 r hr q List.mem_cons_self
  · rcases List.mem_cons.1 hr with rfl | hr
    · exact List.prefix_rfl
    · exact absurd habove (hafter r hr)

lemma InOrder.nodup (h : InOrder places) : places.Nodup := by
  refine h.imp fun hab heq => ?_
  subst heq
  exact hab List.prefix_rfl

/-- **The parent in document order is the nearest place above.** -/
theorem InOrder.nearest?_eq_some_iff (h : InOrder places) :
    nearest? p places = some j ↔ IsNearest places j p := by
  refine ⟨h.isNearest_of_nearest?, ?_⟩
  rintro ⟨q, hq, habove, hmax⟩
  cases hk : nearest? p places with
  | none => exact absurd habove (nearest?_eq_none_iff.1 hk q (List.mem_of_getElem? hq))
  | some k =>
    obtain ⟨r, hr, hrp, hrmax⟩ := h.isNearest_of_nearest? hk
    have hqr := hrmax q (List.mem_of_getElem? hq) habove
    have hrq := hmax r (List.mem_of_getElem? hr) hrp
    have heq : q = r := hqr.eq_of_length_le hrq.length_le
    subst heq
    obtain ⟨hlt, -⟩ := List.getElem?_eq_some_iff.1 hr
    rw [(List.getElem?_inj hlt h.nodup).1 (hr.trans hq.symm)]

end Place

/-! ## The places of the nodes of a tree -/

namespace Node

mutual

/-- The nodes of a tree that stands at a place, each with its own place, in document order. -/
def located (place : Place) : Node → List (Place × Node)
  | node@⟨_, _, _, _, _, _, children⟩ => (place, node) :: locatedFrom place 0 children

/-- The nodes of the children of a place from an index on. -/
def locatedFrom (place : Place) (i : Nat) : List Node → List (Place × Node)
  | [] => []
  | node :: rest => located (place ++ [i]) node ++ locatedFrom place (i + 1) rest

end

lemma located_eq (place : Place) (node : Node) :
    located place node = (place, node) :: locatedFrom place 0 node.children := by
  cases node
  rfl

mutual

/-- The nodes with places are the nodes in document order. -/
theorem map_snd_located (place : Place) : ∀ node : Node,
    (located place node).map Prod.snd = node.preorder
  | ⟨_, _, _, _, _, _, children⟩ => by
    rw [located, List.map_cons, map_snd_locatedFrom place 0 children, preorder]

theorem map_snd_locatedFrom (place : Place) (i : Nat) : ∀ nodes : List Node,
    (locatedFrom place i nodes).map Prod.snd = preorderAll nodes
  | [] => rfl
  | node :: rest => by
    rw [locatedFrom, List.map_append, map_snd_located (place ++ [i]) node,
      map_snd_locatedFrom place (i + 1) rest, preorderAll]

end

lemma descend?_cons (node : Node) (k : Nat) (q : Place) :
    node.descend? ((k :: q).map Int.ofNat) =
      node.children[k]?.bind fun child => child.descend? (q.map Int.ofNat) := rfl

mutual

/-- A place leads to its node. -/
theorem mem_located_iff {place p : Place} {n : Node} : ∀ node : Node,
    (p, n) ∈ located place node ↔
      ∃ q : Place, p = place ++ q ∧ node.descend? (q.map Int.ofNat) = some n
  | ⟨type, text, named, start, stop, field, children⟩ => by
    rw [located, List.mem_cons, mem_locatedFrom_iff children]
    constructor
    · rintro (h | ⟨k, child, q, hchild, rfl, hq⟩)
      · cases h
        exact ⟨[], by simp, rfl⟩
      · refine ⟨k :: q, by simp, ?_⟩
        simp only [descend?_cons, hchild, Option.bind_some, hq]
    · rintro ⟨q, rfl, hq⟩
      cases q with
      | nil =>
        cases hq
        exact Or.inl (by simp)
      | cons k q =>
        rw [descend?_cons] at hq
        obtain ⟨child, hchild, hq⟩ := Option.bind_eq_some_iff.1 hq
        exact Or.inr ⟨k, child, q, hchild, by simp, hq⟩

theorem mem_locatedFrom_iff {place p : Place} {i : Nat} {n : Node} : ∀ nodes : List Node,
    (p, n) ∈ locatedFrom place i nodes ↔
      ∃ (k : Nat) (child : Node) (q : Place), nodes[k]? = some child ∧ p = place ++ (i + k) :: q ∧
        child.descend? (q.map Int.ofNat) = some n
  | [] => by simp [locatedFrom]
  | node :: rest => by
    rw [locatedFrom, List.mem_append, mem_located_iff node, mem_locatedFrom_iff rest]
    constructor
    · rintro (⟨q, rfl, hq⟩ | ⟨k, child, q, hchild, rfl, hq⟩)
      · exact ⟨0, node, q, rfl, by simp, hq⟩
      · exact ⟨k + 1, child, q, hchild, by rw [Nat.add_right_comm, Nat.add_assoc], hq⟩
    · rintro ⟨k, child, q, hchild, rfl, hq⟩
      cases k with
      | zero =>
        cases hchild
        exact Or.inl ⟨q, by simp, hq⟩
      | succ k =>
        exact Or.inr ⟨k, child, q, hchild, by rw [Nat.add_right_comm, Nat.add_assoc], hq⟩

end

lemma prefix_of_mem_located {place : Place} {node : Node} {x : Place × Node}
    (h : x ∈ located place node) : place <+: x.1 := by
  obtain ⟨q, hq, -⟩ := (mem_located_iff node).1 h
  exact ⟨q, hq.symm⟩

lemma prefix_of_mem_locatedFrom {place : Place} {i : Nat} {nodes : List Node} {x : Place × Node}
    (h : x ∈ locatedFrom place i nodes) : ∃ k, i ≤ k ∧ place ++ [k] <+: x.1 := by
  obtain ⟨k, child, q, -, hq, -⟩ := (mem_locatedFrom_iff nodes).1 h
  exact ⟨i + k, Nat.le_add_right i k, q, by simp [hq]⟩

/-- What stands below a child is not what stands below a later one. -/
lemma not_prefix_of_later {place : Place} {i : Nat} {node : Node} {rest : List Node}
    {x y : Place × Node} (hx : x ∈ located (place ++ [i]) node)
    (hy : y ∈ locatedFrom place (i + 1) rest) : ¬y.1 <+: x.1 ∧ ¬x.1 <+: y.1 := by
  obtain ⟨k, hk, hky⟩ := prefix_of_mem_locatedFrom hy
  have hix := prefix_of_mem_located hx
  have hne : ∀ {p : Place}, place ++ [i] <+: p → ¬place ++ [k] <+: p := fun hi hk' => by
    have heq := (List.prefix_of_prefix_length_le hi hk' (by simp)).eq_of_length (by simp)
    simp at heq
    omega
  exact ⟨fun h => hne hix (hky.trans h), fun h => hne (hix.trans h) hky⟩

mutual

/-- The places of the nodes of a tree stand in document order. -/
theorem inOrder_located (place : Place) : ∀ node : Node,
    Place.InOrder ((located place node).map Prod.fst)
  | ⟨_, _, _, _, _, _, children⟩ => by
    rw [located, List.map_cons, Place.InOrder, List.pairwise_cons]
    refine ⟨fun p hp habove => ?_, inOrder_locatedFrom place 0 children⟩
    obtain ⟨x, hx, rfl⟩ := List.mem_map.1 hp
    obtain ⟨k, -, hk⟩ := prefix_of_mem_locatedFrom hx
    have hlength := (hk.trans habove).length_le
    rw [List.length_append, List.length_singleton] at hlength
    exact Nat.not_succ_le_self _ hlength

theorem inOrder_locatedFrom (place : Place) (i : Nat) : ∀ nodes : List Node,
    Place.InOrder ((locatedFrom place i nodes).map Prod.fst)
  | [] => List.Pairwise.nil
  | node :: rest => by
    rw [locatedFrom, List.map_append, Place.InOrder, List.pairwise_append]
    refine ⟨inOrder_located (place ++ [i]) node, inOrder_locatedFrom place (i + 1) rest,
      fun p hp q hq => ?_⟩
    obtain ⟨x, hx, rfl⟩ := List.mem_map.1 hp
    obtain ⟨y, hy, rfl⟩ := List.mem_map.1 hq
    exact (not_prefix_of_later hx hy).1

end

/-! ### Named nodes -/

/-- The named nodes of a tree that stands at a place. -/
def namedAt (place : Place) (node : Node) : List (Place × Node) :=
  (located place node).filter fun x => x.2.named

/-- The named nodes of the children of a place from an index on. -/
def namedAtFrom (place : Place) (i : Nat) (nodes : List Node) : List (Place × Node) :=
  (locatedFrom place i nodes).filter fun x => x.2.named

lemma namedAt_of_named {place : Place} {node : Node} (h : node.named = true) :
    namedAt place node = (place, node) :: namedAtFrom place 0 node.children := by
  rw [namedAt, located_eq, List.filter_cons, if_pos h, namedAtFrom]

lemma namedAt_of_anonymous {place : Place} {node : Node} (h : ¬node.named = true) :
    namedAt place node = namedAtFrom place 0 node.children := by
  rw [namedAt, located_eq, List.filter_cons, if_neg h, namedAtFrom]

lemma namedAtFrom_cons (place : Place) (i : Nat) (node : Node) (rest : List Node) :
    namedAtFrom place i (node :: rest) =
      namedAt (place ++ [i]) node ++ namedAtFrom place (i + 1) rest := by
  rw [namedAtFrom, locatedFrom, List.filter_append, namedAt, namedAtFrom]

lemma not_above_of_mem_namedAt {place : Place} {node : Node} {x : Place × Node}
    (h : x ∈ namedAt place node) : ¬x.1.Above place := by
  rintro ⟨habove, hne⟩
  have hplace := prefix_of_mem_located (List.mem_of_mem_filter h)
  exact hne (habove.eq_of_length_le hplace.length_le)

/-- Everything below a place has the place above it. -/
lemma above_of_mem_namedAtFrom {place : Place} {i : Nat} {nodes : List Node} {x : Place × Node}
    (h : x ∈ namedAtFrom place i nodes) : place.Above x.1 := by
  obtain ⟨k, -, hk⟩ := prefix_of_mem_locatedFrom (List.mem_of_mem_filter h)
  refine ⟨(List.prefix_append place [k]).trans hk, fun heq => ?_⟩
  have hlength := hk.length_le
  rw [← heq, List.length_append, List.length_singleton] at hlength
  exact Nat.not_succ_le_self _ hlength

/-- Nothing below a child is above something below another child. -/
lemma not_above_of_later {place : Place} {i : Nat} {node : Node} {rest : List Node}
    {x y : Place × Node} (hx : x ∈ namedAt (place ++ [i]) node)
    (hy : y ∈ namedAtFrom place (i + 1) rest) : ¬y.1.Above x.1 ∧ ¬x.1.Above y.1 := by
  obtain ⟨hyx, hxy⟩ := not_prefix_of_later (List.mem_of_mem_filter hx) (List.mem_of_mem_filter hy)
  exact ⟨fun h => hyx h.1, fun h => hxy h.1⟩

end Node

end TreeDiff
