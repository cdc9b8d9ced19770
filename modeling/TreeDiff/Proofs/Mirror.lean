/-
# Exchanging old and new

Every rule of the matching is meant not to tell old from new, so that the comparison of two trees
the other way round reports the same changes as in a mirror.  The in-place links, the candidates
for a move and their keys are in fact the same both ways.  The order of tied candidates is not, and
so the links are the same both ways exactly if no tie is disputed.  If they are, then so are the
changes.
-/
import TreeDiff.Proofs.Changes
import TreeDiff.Proofs.Orders

namespace TreeDiff

section

variable {threshold : Binary64} {links back : Links} {old new : Entry} {c : MoveCandidate}

/-! ## The matching the other way round -/

lemma MoveCandidate.isFree_swap (hback : back.MirrorOf links) :
    c.swap.IsFree back ↔ c.IsFree links := by
  rw [IsFree, IsFree, hback.freeOld_eq, hback.freeNew_eq]
  exact and_comm

/-- A visit seen from the other side. -/
lemma acceptMove_swap (hold : c.old.WellPlaced) (hnew : c.new.WellPlaced)
    (hback : back.MirrorOf links) :
    Links.MirrorOf (acceptMove threshold back c.swap) (acceptMove threshold links c) := by
  intro l
  rw [Links.mem_swap, mem_acceptMove hnew hold, mem_acceptMove hold hnew, hback, Links.mem_swap,
    MoveCandidate.isFree_swap hback, MoveCandidate.link_swap, Link.eq_swap_iff]
  exact or_congr Iff.rfl (and_congr_right fun _ => or_congr Iff.rfl
    (InPlace.mirror_iff (hback.cons c.link) hold hnew))

lemma foldl_acceptMove_swap (threshold : Binary64) {cs : List MoveCandidate}
    (hcs : WellPlacedCandidates cs) (hback : back.MirrorOf links) :
    Links.MirrorOf ((cs.map MoveCandidate.swap).foldl (acceptMove threshold) back)
      (cs.foldl (acceptMove threshold) links) := by
  induction cs generalizing links back with
  | nil => exact hback
  | cons c rest ih =>
    obtain ⟨hold, hnew⟩ := hcs c List.mem_cons_self
    exact ih hcs.tail (acceptMove_swap hold hnew hback)

/-- The links in place do not tell old from new. -/
lemma linkInPlace_swap (threshold : Binary64) (hold : old.WellPlaced) (hnew : new.WellPlaced) :
    (linkInPlace threshold new old).MirrorOf (linkInPlace threshold old new) := by
  intro l
  rw [Links.mem_swap, mem_linkInPlace hold hnew, mem_linkInPlace hnew hold]
  exact or_congr (Link.eq_swap_iff (m := ⟨old, new, .exact⟩))
    (InPlace.mirror_iff (fun _ => Iff.rfl) hold hnew)

/-- The candidates for a move, in the order in which they are visited the other way round. -/
def backCandidates (threshold : Binary64) (old new : Entry) : List MoveCandidate :=
  (moveCandidates threshold (linkInPlace threshold new old) new old).map MoveCandidate.swap

/-- Whether no tie between candidates for a move is disputed: wherever two neighbours change places
when old and new are exchanged, a visit to one of them leaves the other free if both are free
before. -/
def TiesUndisputed (threshold : Binary64) (old new : Entry) : Prop :=
  NoDispute threshold (linkInPlace threshold old new)
    (moveCandidates threshold (linkInPlace threshold old new) old new)
    (backCandidates threshold old new)

lemma perm_backCandidates (hold : old.WellPlaced) (hnew : new.WellPlaced) :
    (backCandidates threshold old new).Perm
      (moveCandidates threshold (linkInPlace threshold old new) old new) :=
  perm_moveCandidates_swap hold hnew (linkInPlace_swap threshold hold hnew)

lemma upToTies_backCandidates (hold : old.WellPlaced) (hnew : new.WellPlaced) :
    UpToTies (moveCandidates threshold (linkInPlace threshold old new) old new)
      (backCandidates threshold old new) := by
  refine upToTies_of_perm (fun a ha b hb c hc hab hac hne => ?_)
    (pairwise_moveCandidates _ _ _ _) ?_ (nodup_moveCandidates _ _ hold hnew)
    (perm_backCandidates hold hnew).symm
  · rw [mem_moveCandidates] at ha hb hc
    by_cases hca : c = a
    · exact Or.inl hca
    · have hb' := ha.crosswise hold hnew hb hab hne
      have hc' := ha.crosswise hold hnew hc hac (Ne.symm hca)
      exact Or.inr (hc.eq_of_seq hold hnew hb (by omega) (by omega))
  · refine List.pairwise_map.2 ((pairwise_moveCandidates _ _ _ _).imp fun {c d} hcd => ?_)
    rw [MoveCandidate.key_swap, MoveCandidate.key_swap]
    exact hcd

/-- All links seen from the other side. -/
lemma linkTrees_swap (threshold : Binary64) (hold : old.WellPlaced) (hnew : new.WellPlaced) :
    (linkTrees threshold new old).MirrorOf ((backCandidates threshold old new).foldl
      (acceptMove threshold) (linkInPlace threshold old new)) := by
  have hwell : WellPlacedCandidates (backCandidates threshold old new) := fun c hc =>
    wellPlacedCandidates_moveCandidates _ _ hold hnew c ((perm_backCandidates hold hnew).subset hc)
  have hmirror := foldl_acceptMove_swap threshold hwell (linkInPlace_swap threshold hold hnew)
  rw [backCandidates, List.map_map,
    show MoveCandidate.swap ∘ MoveCandidate.swap = id from rfl, List.map_id] at hmirror
  exact hmirror

/-- **The links are the same both ways exactly if no tie is disputed.** -/
theorem linkTrees_mirrorOf_iff (threshold : Binary64) (hold : old.WellPlaced)
    (hnew : new.WellPlaced) :
    (linkTrees threshold new old).MirrorOf (linkTrees threshold old new) ↔
      TiesUndisputed threshold old new := by
  rw [TiesUndisputed, ← mem_foldl_acceptMove_iff hold hnew (upToTies_backCandidates hold hnew)
    (nodup_moveCandidates _ _ hold hnew) (fun _ hc => mem_moveCandidates.1 hc)
    (Links.Run.linkInPlace hold hnew threshold) (Links.Run.linkInPlace hold hnew threshold)
    fun _ => Iff.rfl]
  have hback := linkTrees_swap threshold hold hnew
  constructor
  · intro h l
    have hl := h l.swap
    rw [hback, Links.mem_swap, Links.mem_swap, Link.swap_swap] at hl
    exact hl.symm
  · intro h l
    rw [hback, Links.mem_swap, Links.mem_swap]
    exact (h l.swap).symm

end

/-! ## The changes the other way round -/

/-- The kind of a change seen from the other side. -/
def ChangeKind.mirror : ChangeKind → ChangeKind
  | .remove => .add
  | .rename => .rename
  | .move => .move
  | .modify => .modify
  | .add => .remove

namespace Change

/-- The change seen from the other side. -/
def mirror (c : Change) : Change :=
  { c with
    kind := c.kind.mirror
    oldIdentity := c.newIdentity, newIdentity := c.oldIdentity
    oldValue := c.newValue, newValue := c.oldValue
    oldPath := c.newPath, newPath := c.oldPath }

/-- The change without the place of the node that anchors it, which is the old node of most changes.
-/
def unanchored (c : Change) : Change := { c with path := "", start := ⟨0, 0⟩, stop := ⟨0, 0⟩ }

end Change

section

variable {threshold : Binary64} {limit : Option Int} {links back : Links} {old new : Entry}
  {l : Link}

lemma Link.change?_swap (l : Link) : l.swap.change? = l.change? := by
  refine if_congr ?_ rfl (if_congr ?_ rfl (if_congr ne_comm rfl rfl))
  · rw [Bool.and_eq_true, Bool.and_eq_true, decide_eq_true_iff, decide_eq_true_iff, ne_comm]
    rfl
  · rw [Bool.and_eq_true, Bool.and_eq_true, decide_eq_true_iff, decide_eq_true_iff, ne_comm]
    rfl

/-- What is reported of two joined entries of one type is the same both ways. -/
lemma report_swap (htype : l.old.type = l.new.type) :
    (l.swap.report limit).map Change.unanchored =
      (l.report limit).map fun c => c.mirror.unanchored := by
  rw [Link.report, Link.report, Link.change?_swap, Option.map_map, Option.map_map]
  refine Option.map_congr fun kind hkind => ?_
  have hmirror : kind.mirror = kind := by
    rcases Link.kind_of_change? hkind with rfl | rfl | rfl <;> rfl
  simp only [Function.comp_apply, changed, Change.mirror, Change.unanchored, Link.swap_old,
    Link.swap_new, hmirror, htype]

lemma nodup_swap (h : links.Nodup) : links.swap.Nodup :=
  List.Nodup.map (fun _ _ heq => Link.eq_swap_iff.1 heq) h

/-- The old root and the new root have no links but the one with each other. -/
lemma old_seq_eq_iff (hsound : links.Sound threshold old new) (hl : l ∈ links) :
    l.old.seq = old.seq ↔ l.new.seq = new.seq := by
  constructor
  · intro h
    rw [hsound.oneToOne.eq_of_old hl hsound.roots_joined h]
  · intro h
    rw [hsound.oneToOne.eq_of_new hl hsound.roots_joined h]

lemma perm_belowRoots_swap (hsound : links.Sound threshold old new)
    (hsound' : back.Sound threshold new old) (hback : back.MirrorOf links) :
    (back.belowRoots new).Perm (Links.swap (links.belowRoots old)) := by
  refine (List.perm_ext_iff_of_nodup (hsound'.oneToOne.nodup.filter _)
    (nodup_swap (hsound.oneToOne.nodup.filter _))).2 fun l => ?_
  have hseq : l.swap ∈ links → (l.old.seq = new.seq ↔ l.new.seq = old.seq) := fun hl =>
    (old_seq_eq_iff hsound hl).symm
  rw [Links.mem_swap, List.mem_filter, List.mem_filter, hback, Links.mem_swap, bne_iff_ne,
    bne_iff_ne, Link.swap_old]
  exact and_congr_right fun hl => not_congr (hseq hl)

/-- **Links that are the same both ways give changes that mirror each other.** -/
theorem perm_classify_swap (limit : Option Int) (hold : old.WellPlaced) (hnew : new.WellPlaced)
    (hsound : links.Sound threshold old new) (hsound' : back.Sound threshold new old)
    (hback : back.MirrorOf links) :
    ((classify limit back new old).map Change.unanchored).Perm
      ((classify limit links old new).map fun c => c.mirror.unanchored) := by
  have hreports :
      (((back.belowRoots new).filterMap (Link.report limit)).map Change.unanchored).Perm
        (((links.belowRoots old).filterMap (Link.report limit)).map
          fun c => c.mirror.unanchored) := by
    refine (((perm_belowRoots_swap hsound hsound' hback).filterMap _).map _).trans ?_
    rw [Links.swap, List.filterMap_map, List.map_filterMap, List.map_filterMap]
    refine List.Perm.of_eq (List.filterMap_congr fun l hl => ?_)
    obtain ⟨hl, hne⟩ := (mem_belowRoots hsound).1 hl
    exact report_swap (hsound.justified l hl hne).type_eq
  have hremoved : ((new.descendants.filter back.isRemoved).map (removed limit)).map
      Change.unanchored = ((new.descendants.filter links.isAdded).map (added limit)).map
        fun c => c.mirror.unanchored := by
    rw [List.map_map, List.map_map, List.filter_congr fun e _ => isRemoved_swap hback e]
    rfl
  have hadded : ((old.descendants.filter back.isAdded).map (added limit)).map
      Change.unanchored = ((old.descendants.filter links.isRemoved).map (removed limit)).map
        fun c => c.mirror.unanchored := by
    rw [List.map_map, List.map_map, List.filter_congr fun e _ => (isRemoved_swap hback.symm e).symm]
    rfl
  -- removals one way are additions the other way, so the two sources change places
  refine ((perm_classify hnew hsound').map _).trans
    (.trans ?_ ((perm_classify hold hsound).map _).symm)
  rw [List.map_append, List.map_append, List.map_append, List.map_append, hremoved, hadded,
    List.append_assoc, List.append_assoc]
  exact hreports.append List.perm_append_comm

end

/-- **The mirror law.**  The links of two comparisons, one the other way round, are the same up to
their order exactly if no tie between candidates for a move is disputed.  If none is, then the
changes of one comparison are those of the other one seen from the other side, up to order and
anchors. -/
theorem mirror_iff_tiesUndisputed (d : Differ) (fullText : Bool) (old new : Outline) :
    ((linkTrees d.threshold (.root new) (.root old)).Perm
        (linkTrees d.threshold (.root old) (.root new)).swap ↔
      TiesUndisputed d.threshold (.root old) (.root new)) ∧
    (TiesUndisputed d.threshold (.root old) (.root new) →
      ((d.diffOutlines fullText new old).changes.map Change.unanchored).Perm
        ((d.diffOutlines fullText old new).changes.map fun c => c.mirror.unanchored)) := by
  have hold := Entry.wellPlaced_root old
  have hnew := Entry.wellPlaced_root new
  have hsound := (Links.Run.linkTrees hold hnew d.threshold).sound
  have hsound' := (Links.Run.linkTrees hnew hold d.threshold).sound
  have hsame := linkTrees_mirrorOf_iff d.threshold hold hnew
  constructor
  · rw [← hsame]
    exact List.perm_ext_iff_of_nodup hsound'.oneToOne.nodup (nodup_swap hsound.oneToOne.nodup)
  · intro hties
    have hperm := perm_classify_swap (d.limit fullText) hold hnew hsound hsound' (hsame.2 hties)
    exact (((List.mergeSort_perm _ _).map _).trans hperm).trans
      ((List.mergeSort_perm _ _).map _).symm

/-! ## A disputed tie -/

/-- A schema in which classes have names. -/
def Schema.classes : Schema :=
  ⟨none, [⟨"class", true, [("name", ⟨[⟨"identifier", true⟩], false, true⟩)], none, []⟩,
    ⟨"identifier", true, [], none, []⟩, ⟨"program", true, [], none, []⟩]⟩

/-- A class with its name and its members. -/
def Node.ofClass (name text : String) (members : List Node) : Node :=
  ⟨"class", text, true, ⟨0, 0⟩, ⟨0, 0⟩, none,
    ⟨"identifier", name, true, ⟨0, 0⟩, ⟨0, 0⟩, some "name", []⟩ :: members⟩

/-- A program that consists of a class. -/
def Node.ofProgram (main : Node) : Node :=
  ⟨"program", main.text, true, ⟨0, 0⟩, ⟨0, 0⟩, none, [main]⟩

/-- A class `A` that holds a class `B`. -/
def Node.nested : Node := .ofClass "A" "class A: class B: pass" [.ofClass "B" "class B: pass" []]

/-- The same class on its own. -/
def Outline.bare : Outline := .ofNode .classes (.ofProgram .nested)

/-- The same class within another class `B`. -/
def Outline.wrapped : Outline :=
  .ofNode .classes (.ofProgram (.ofClass "B" "class B: class A: class B: pass" [.nested]))

/-- **The mirror law fails for a disputed tie.**  One way `A` is visited first and takes the inner
`B` along; the other way the inner `B` is visited first and is joined with the outer one. -/
theorem not_perm_mirror_bare_wrapped :
    ¬((Differ.diffOutlines ⟨.classes, .one, 100⟩ false .wrapped .bare).changes.map
        Change.unanchored).Perm
      ((Differ.diffOutlines ⟨.classes, .one, 100⟩ false .bare .wrapped).changes.map
        fun c => c.mirror.unanchored) := by
  intro h
  have hforth : (Differ.diffOutlines ⟨.classes, .one, 100⟩ false .bare .wrapped).changes.length =
      2 := (Differ.perm_changes_of_sorted (by decide +kernel)).length_eq.trans (by decide +kernel)
  have hback : (Differ.diffOutlines ⟨.classes, .one, 100⟩ false .wrapped .bare).changes.length =
      3 := (Differ.perm_changes_of_sorted (by decide +kernel)).length_eq.trans (by decide +kernel)
  have hlength := h.length_eq
  rw [List.length_map, List.length_map, hforth, hback] at hlength
  omega

/-- Two classes with a function each. -/
def Outline.beforeSwap : Outline :=
  .named "module" "m" [.named "class" "A" [.named "function" "f" []],
    .named "class" "B" [.named "function" "g" []]]

/-- The classes after the functions changed places. -/
def Outline.afterSwap : Outline :=
  .named "module" "m" [.named "class" "A" [.named "function" "g" []],
    .named "class" "B" [.named "function" "f" []]]

/-- A tie that is not disputed: the functions do not lie one below the other. -/
theorem perm_mirror_beforeSwap_afterSwap :
    TiesUndisputed .one (.root .beforeSwap) (.root .afterSwap) ∧
      ((Differ.diffOutlines ⟨.classes, .one, 100⟩ false .afterSwap .beforeSwap).changes.map
        Change.unanchored).Perm
      ((Differ.diffOutlines ⟨.classes, .one, 100⟩ false .beforeSwap .afterSwap).changes.map
        fun c => c.mirror.unanchored) := by
  have hsorted : (foundCandidates .one (linkInPlace .one (.root .beforeSwap) (.root .afterSwap))
      (.root .beforeSwap) (.root .afterSwap)).Pairwise fun c d =>
        lexNotAfter c.key d.key = true := by
    decide +kernel
  have hlength : (foundCandidates .one (linkInPlace .one (.root .beforeSwap) (.root .afterSwap))
      (.root .beforeSwap) (.root .afterSwap)).length = 2 := by decide +kernel
  have hpair : (foundCandidates .one (linkInPlace .one (.root .beforeSwap) (.root .afterSwap))
      (.root .beforeSwap) (.root .afterSwap)).Pairwise fun c d =>
        c.Undisputed .one (linkInPlace .one (.root .beforeSwap) (.root .afterSwap)) d := by
    decide +kernel
  have hties : TiesUndisputed .one (.root .beforeSwap) (.root .afterSwap) := by
    intro pre c d post pre' post' hcs _ _
    rw [moveCandidates_of_sorted hsorted] at hcs
    rw [hcs] at hlength hpair
    obtain rfl : pre = [] := by
      rw [List.length_append, List.length_cons, List.length_cons] at hlength
      exact List.length_eq_zero_iff.1 (by omega)
    exact (List.pairwise_cons.1 hpair).1 d List.mem_cons_self
  exact ⟨hties,
    (mirror_iff_tiesUndisputed ⟨.classes, .one, 100⟩ false .beforeSwap .afterSwap).2 hties⟩

end TreeDiff
