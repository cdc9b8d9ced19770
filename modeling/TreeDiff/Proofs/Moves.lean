/-
# Joining what is left anywhere in the trees

The candidates for a move are collected once, before the first of them is joined.  They are then
visited with the nearest to the roots first; a candidate whose entries are both still free is
joined, and the descent below it is run.  This file describes the candidates, one visit, and a
whole round of visits: links are only added, and no candidate is left with both entries free.
-/
import Mathlib.Tactic.Tauto
import TreeDiff.Proofs.Descent

namespace TreeDiff

section

variable {threshold : Binary64} {links : Links} {old new : Entry} {c d : MoveCandidate} {l : Link}

/-! ## Candidates -/

namespace MoveCandidate

@[simp] lemma link_old (c : MoveCandidate) : c.link.old = c.old := rfl

@[simp] lemma link_new (c : MoveCandidate) : c.link.new = c.new := rfl

lemma link_kind (c : MoveCandidate) : c.link.kind = .moved ∨ c.link.kind = .similarMoved := by
  cases h : c.sameName <;> simp [link, h]

/-- The depth of the nearer of the two entries. -/
def depth (c : MoveCandidate) : Nat := min c.old.depth c.new.depth

/-- Candidates are sorted by their depth first. -/
lemma depth_le_of_key (h : lexNotAfter c.key d.key = true) : c.depth ≤ d.depth := by
  rw [key, key, lexNotAfter_cons] at h
  simp only [depth]
  omega

end MoveCandidate

/-- The candidate of two entries has their names compared before their texts. -/
lemma moveCandidate?_eq_some : moveCandidate? threshold old new = some c ↔
    c.old = old ∧ c.new = new ∧
      (old.identifier = new.identifier ∧ c.score = .one ∧ c.sameName = true ∨
        old.identifier ≠ new.identifier ∧ c.score = old.similarity threshold new ∧
          reaches threshold c.score = true ∧ c.sameName = false) := by
  obtain ⟨⟨o, n, score⟩, sameName⟩ := c
  by_cases hname : old.identifier = new.identifier
  · rw [moveCandidate?, if_pos hname, Option.some.injEq, MoveCandidate.mk.injEq,
      Candidate.mk.injEq]
    tauto
  · rw [moveCandidate?, if_neg hname, Option.ite_none_right_eq_some, Option.some.injEq,
      MoveCandidate.mk.injEq, Candidate.mk.injEq]
    constructor
    · rintro ⟨hreaches, ⟨rfl, rfl, rfl⟩, rfl⟩
      exact ⟨rfl, rfl, Or.inr ⟨hname, rfl, hreaches, rfl⟩⟩
    · rintro ⟨ho, hn, h | ⟨-, hscore, hreaches, hsame⟩⟩
      · exact absurd h.1 hname
      · exact ⟨hscore ▸ hreaches, ⟨ho.symm, hn.symm, hscore.symm⟩, hsame.symm⟩

/-- What a candidate for a move is: two free entries of one type with identifiers, which are the
same, or else whose texts are similar. -/
structure MoveCandidate.Meets (threshold : Binary64) (links : Links) (old new : Entry)
    (c : MoveCandidate) : Prop where
  old_mem : c.old ∈ old.preorder
  new_mem : c.new ∈ new.preorder
  old_free : links.freeOld c.old = true
  new_free : links.freeNew c.new = true
  old_identified : c.old.isIdentified = true
  new_identified : c.new.isIdentified = true
  type_eq : c.old.type = c.new.type
  candidate : moveCandidate? threshold c.old c.new = some c

/-- The candidates in the order in which they are found. -/
def foundCandidates (threshold : Binary64) (links : Links) (old new : Entry) : List MoveCandidate :=
  let olds := old.preorder.filter fun e => links.freeOld e && e.isIdentified
  let news := new.preorder.filter fun e => links.freeNew e && e.isIdentified
  (typesOf olds).flatMap fun type =>
    (ofType type olds).flatMap fun o => (ofType type news).filterMap (moveCandidate? threshold o)

lemma perm_foundCandidates (threshold : Binary64) (links : Links) (old new : Entry) :
    (moveCandidates threshold links old new).Perm (foundCandidates threshold links old new) :=
  List.mergeSort_perm _ _

/-- Candidates that are found in order are visited in the order in which they are found. -/
lemma moveCandidates_of_sorted (h : (foundCandidates threshold links old new).Pairwise fun c d =>
    lexNotAfter c.key d.key = true) :
    moveCandidates threshold links old new = foundCandidates threshold links old new :=
  List.mergeSort_of_pairwise h

lemma mem_moveCandidates :
    c ∈ moveCandidates threshold links old new ↔ c.Meets threshold links old new := by
  rw [(perm_foundCandidates threshold links old new).mem_iff]
  simp only [foundCandidates, List.mem_flatMap, List.mem_filterMap, mem_typesOf,
    ofType, List.mem_filter, Bool.and_eq_true, decide_eq_true_eq]
  constructor
  · rintro ⟨type, -, o, ⟨⟨ho, hofree, hoid⟩, rfl⟩, n, ⟨⟨hn, hnfree, hnid⟩, htype⟩, hc⟩
    obtain ⟨rfl, rfl, -⟩ := moveCandidate?_eq_some.1 hc
    exact ⟨ho, hn, hofree, hnfree, hoid, hnid, htype.symm, hc⟩
  · intro h
    have hold := And.intro h.old_mem (And.intro h.old_free h.old_identified)
    have hnew := And.intro h.new_mem (And.intro h.new_free h.new_identified)
    exact ⟨c.old.type, ⟨c.old, hold, rfl⟩, c.old, ⟨hold, rfl⟩, c.new, ⟨hnew, h.type_eq.symm⟩,
      h.candidate⟩

/-- If no entry of one of the trees is free, there is no candidate. -/
lemma moveCandidates_eq_nil (h : (∀ e ∈ old.preorder, links.freeOld e = false) ∨
    ∀ e ∈ new.preorder, links.freeNew e = false) :
    moveCandidates threshold links old new = [] := by
  rw [List.eq_nil_iff_forall_not_mem]
  intro c hc
  have hmeets := mem_moveCandidates.1 hc
  rcases h with h | h
  · exact Bool.false_ne_true ((h _ hmeets.old_mem).symm.trans hmeets.old_free)
  · exact Bool.false_ne_true ((h _ hmeets.new_mem).symm.trans hmeets.new_free)

/-- If no entry of one of the trees is free after the descent, the links in place are all links. -/
lemma linkTrees_eq_linkInPlace
    (h : (∀ e ∈ old.preorder, (linkInPlace threshold old new).freeOld e = false) ∨
      ∀ e ∈ new.preorder, (linkInPlace threshold old new).freeNew e = false) :
    linkTrees threshold old new = linkInPlace threshold old new := by
  rw [linkTrees, linkMoves, moveCandidates_eq_nil h, List.foldl_nil]

lemma pairwise_moveCandidates (threshold : Binary64) (links : Links) (old new : Entry) :
    (moveCandidates threshold links old new).Pairwise fun c d =>
      lexNotAfter c.key d.key = true :=
  pairwise_mergeSort_key MoveCandidate.key _

namespace MoveCandidate.Meets

lemma sameName_iff (h : c.Meets threshold links old new) :
    c.sameName = true ↔ c.old.identifier = c.new.identifier := by
  have hc := (moveCandidate?_eq_some.1 h.candidate).2.2
  rcases hc with ⟨hname, -, hsame⟩ | ⟨hname, -, -, hsame⟩ <;> simp [hname, hsame]

lemma isRenaming (h : c.Meets threshold links old new) (hname : c.sameName = false) :
    c.old.IsRenaming threshold c.new := by
  rcases (moveCandidate?_eq_some.1 h.candidate).2.2 with ⟨-, -, hsame⟩ | ⟨hne, hscore, hreaches, -⟩
  · simp [hname] at hsame
  obtain ⟨a, ha⟩ := Option.isSome_iff_exists.1 h.old_identified
  obtain ⟨b, hb⟩ := Option.isSome_iff_exists.1 h.new_identified
  refine ⟨⟨a, b, ha, hb, ?_⟩, hscore ▸ hreaches⟩
  rintro rfl
  exact hne (ha.trans hb.symm)

/-- The entries of a candidate could also be joined in place. -/
lemma fits (h : c.Meets threshold links old new) : c.old.Fits threshold c.new := by
  refine ⟨h.type_eq, ?_⟩
  rcases (moveCandidate?_eq_some.1 h.candidate).2.2 with ⟨hname, -⟩ | ⟨-, hscore, hreaches, -⟩
  · exact Or.inl (Entry.key_eq_of_identifier_eq h.old_identified hname)
  · exact Or.inr ⟨h.old_identified, h.new_identified, hscore ▸ hreaches⟩

end MoveCandidate.Meets

/-- Free entries with identifiers that could be joined in place are a candidate for a move. -/
lemma exists_mem_moveCandidates {o n : Entry} (ho : o ∈ old.preorder) (hn : n ∈ new.preorder)
    (hofree : links.freeOld o = true) (hnfree : links.freeNew n = true)
    (hoid : o.isIdentified = true) (hnid : n.isIdentified = true) (hfits : o.Fits threshold n) :
    ∃ c ∈ moveCandidates threshold links old new, c.old = o ∧ c.new = n := by
  have hsome : ∃ c, moveCandidate? threshold o n = some c := by
    by_cases hname : o.identifier = n.identifier
    · exact ⟨_, if_pos hname⟩
    · rcases hfits.2 with hkey | ⟨-, -, hreaches⟩
      · exact absurd (Entry.key_eq_iff.1 hkey).1 hname
      · exact ⟨_, (if_neg hname).trans (if_pos hreaches)⟩
  obtain ⟨c, hc⟩ := hsome
  obtain ⟨rfl, rfl, -⟩ := moveCandidate?_eq_some.1 hc
  exact ⟨c, mem_moveCandidates.2 ⟨ho, hn, hofree, hnfree, hoid, hnid, hfits.1, hc⟩, rfl, rfl⟩

/-! ## Trees in which every stage joins all children -/

section

variable (kindOf : Entry → LinkKind) {f : Entry → Entry} (hold : old.WellPlaced)
  (hnew : new.WellPlaced) (hroot : f old = new) (hkind : kindOf old = .exact)
  (hstage : ∀ p ∈ old.preorder, ∀ l, l ∈ linkChildren threshold [⟨old, new, .exact⟩] p (f p) ↔
    l.kind = kindOf l.old ∧ l.old ∈ p.children ∧ l.new = f l.old)

include hold hnew hroot hkind hstage

/-- If every stage joins the children with their counterparts, all entries are joined in place. -/
lemma mem_linkInPlace_of_all_stages : l ∈ linkInPlace threshold old new ↔
    l.kind = kindOf l.old ∧ l.old ∈ old.preorder ∧ l.new = f l.old := by
  have hstages : ∀ p ∈ old.preorder, True →
      ∀ l, l ∈ linkChildren threshold [⟨old, new, .exact⟩] p (f p) ↔
        l.kind = kindOf l.old ∧ l.old ∈ p.children ∧ True ∧ l.new = f l.old := fun p hp _ l => by
    rw [hstage p hp, true_and]
  rw [mem_linkInPlace_of_stages hold hnew (fun _ => True) kindOf hstages (fun _ _ _ _ _ => trivial)
    trivial hroot hkind, true_and]

/-- Nothing is left for the candidates for a move, so these are all links. -/
lemma mem_linkTrees_of_all_stages : l ∈ linkTrees threshold old new ↔
    l.kind = kindOf l.old ∧ l.old ∈ old.preorder ∧ l.new = f l.old := by
  have hinPlace := fun l =>
    mem_linkInPlace_of_all_stages kindOf hold hnew hroot hkind hstage (l := l)
  have hjoined : ∀ e ∈ old.preorder, (linkInPlace threshold old new).freeOld e = false :=
    fun e he => Links.freeOld_of_mem ((hinPlace ⟨e, f e, kindOf e⟩).2 ⟨rfl, he, rfl⟩)
  rw [linkTrees_eq_linkInPlace (Or.inl hjoined), hinPlace]

end

/-! ## Visiting candidates -/

/-- Whether both entries of a candidate are free. -/
def MoveCandidate.IsFree (links : Links) (c : MoveCandidate) : Prop :=
  links.freeOld c.old = true ∧ links.freeNew c.new = true

instance (links : Links) (c : MoveCandidate) : Decidable (c.IsFree links) :=
  inferInstanceAs (Decidable (_ ∧ _))

lemma MoveCandidate.IsFree.of_subset {more : Links} (h : c.IsFree more) (hsub : links ⊆ more) :
    c.IsFree links :=
  ⟨Links.freeOld_of_subset hsub h.1, Links.freeNew_of_subset hsub h.2⟩

lemma MoveCandidate.not_isFree_of_link_mem (h : c.link ∈ links) : ¬c.IsFree links := fun hfree =>
  Links.freeOld_iff.1 hfree.1 c.link h rfl

lemma acceptMove_of_isFree (h : c.IsFree links) :
    acceptMove threshold links c = linkBelow threshold c.old c.new (c.link :: links) := by
  rw [acceptMove, h.1, h.2]
  rfl

lemma acceptMove_of_not_isFree (h : ¬c.IsFree links) : acceptMove threshold links c = links := by
  rw [MoveCandidate.IsFree, ← Bool.and_eq_true] at h
  rw [acceptMove, if_neg h]

/-- **What a visit adds:** the link of a candidate that is free, and what is linked in place below
it. -/
theorem mem_acceptMove (hold : c.old.WellPlaced) (hnew : c.new.WellPlaced) :
    l ∈ acceptMove threshold links c ↔ l ∈ links ∨
      c.IsFree links ∧ (l = c.link ∨ InPlace threshold (c.link :: links) c.old c.new l) := by
  by_cases hfree : c.IsFree links
  · rw [acceptMove_of_isFree hfree, mem_linkBelow hold hnew, List.mem_cons]
    tauto
  · rw [acceptMove_of_not_isFree hfree]
    tauto

end

section

variable {threshold : Binary64} {links : Links} {c : MoveCandidate} {l : Link}

/-- Candidates whose entries head well-placed trees. -/
def WellPlacedCandidates (cs : List MoveCandidate) : Prop :=
  ∀ c ∈ cs, c.old.WellPlaced ∧ c.new.WellPlaced

lemma WellPlacedCandidates.tail {cs : List MoveCandidate} (h : WellPlacedCandidates (c :: cs)) :
    WellPlacedCandidates cs := fun d hd => h d (List.mem_cons_of_mem c hd)

lemma wellPlacedCandidates_of_meets {old new : Entry} (hold : old.WellPlaced)
    (hnew : new.WellPlaced) {cs : List MoveCandidate}
    (hcs : ∀ c ∈ cs, c.Meets threshold links old new) : WellPlacedCandidates cs := fun c hc =>
  ⟨hold.of_mem (hcs c hc).old_mem, hnew.of_mem (hcs c hc).new_mem⟩

lemma wellPlacedCandidates_moveCandidates (threshold : Binary64) (links : Links) {old new : Entry}
    (hold : old.WellPlaced) (hnew : new.WellPlaced) :
    WellPlacedCandidates (moveCandidates threshold links old new) :=
  wellPlacedCandidates_of_meets hold hnew fun _ hc => mem_moveCandidates.1 hc

lemma subset_acceptMove (hold : c.old.WellPlaced) (hnew : c.new.WellPlaced) :
    links ⊆ acceptMove threshold links c := fun _ hl => (mem_acceptMove hold hnew).2 (Or.inl hl)

/-- After its visit, a candidate is no longer free. -/
lemma not_isFree_acceptMove (hold : c.old.WellPlaced) (hnew : c.new.WellPlaced) :
    ¬c.IsFree (acceptMove threshold links c) := by
  intro hfree
  have hbefore := hfree.of_subset (subset_acceptMove hold hnew)
  have hlink : c.link ∈ acceptMove threshold links c :=
    (mem_acceptMove hold hnew).2 (Or.inr ⟨hbefore, Or.inl rfl⟩)
  exact MoveCandidate.not_isFree_of_link_mem hlink hfree

variable {cs : List MoveCandidate}

lemma subset_foldl_acceptMove (hcs : WellPlacedCandidates cs) :
    links ⊆ cs.foldl (acceptMove threshold) links := by
  induction cs generalizing links with
  | nil => exact fun _ hl => hl
  | cons c rest ih =>
    obtain ⟨hold, hnew⟩ := hcs c List.mem_cons_self
    intro l hl
    exact ih hcs.tail (subset_acceptMove hold hnew hl)

/-- A round of visits in which no candidate is free does nothing. -/
lemma foldl_acceptMove_of_not_isFree (h : ∀ c ∈ cs, ¬c.IsFree links) :
    cs.foldl (acceptMove threshold) links = links := by
  induction cs with
  | nil => rfl
  | cons c rest ih =>
    rw [List.foldl_cons, acceptMove_of_not_isFree (h c List.mem_cons_self)]
    exact ih fun d hd => h d (List.mem_cons_of_mem c hd)

/-- **No candidate is left with both entries free.** -/
theorem not_isFree_foldl_acceptMove (hcs : WellPlacedCandidates cs) (hc : c ∈ cs) :
    ¬c.IsFree (cs.foldl (acceptMove threshold) links) := by
  induction cs generalizing links with
  | nil => exact absurd hc List.not_mem_nil
  | cons b rest ih =>
    rcases List.mem_cons.1 hc with rfl | hc
    · obtain ⟨hold, hnew⟩ := hcs c List.mem_cons_self
      intro hfree
      exact not_isFree_acceptMove hold hnew (hfree.of_subset (subset_foldl_acceptMove hcs.tail))
    · exact ih hcs.tail hc

end

end TreeDiff
