/-
# The descent as a worklist

The descent below two joined entries can be run without recursion.  The pairs below which the
children are still to be linked wait in a list; one of them is taken, its children are linked type
by type, and the pairs that this makes wait in turn.  Neither the order in which pairs are taken nor
the order in which types are visited is fixed.  Yet it makes no difference: the pairs that wait head
trees that have nothing in common, so that what is linked below one of them does not depend on the
others, and what is linked among children of one type does not depend on the other types.  A step
therefore leaves the outcome of a worklist as it is: the links that are there and those that its
pairs will add.  A worklist that has come to an end is its own outcome.
-/
import Mathlib.Logic.Hydra
import TreeDiff.Proofs.Descent
import TreeDiff.Proofs.SiblingPairs

namespace TreeDiff

/-! ## One stage, described by places in rows -/

/-- Whether two entries have the same key and the same place among the entries with it. -/
def PairedByKey (olds news : List Entry) (o n : Entry) : Prop :=
  ∃ (key : Key) (k : Nat), (withKey key olds)[k]? = some o ∧ (withKey key news)[k]? = some n

/-- What is joined right below two entries, when `links` are there before: among the free children
of a type the `k`-th old one with a key and the `k`-th new one, and then, by similarity, those with
an identifier that remain. -/
inductive PairedBelow (threshold : Binary64) (links : Links) (old new : Entry) : Link → Prop where
  | byKey {type : String} {o n : Entry}
      (paired : PairedByKey (freeOlds links type old) (freeNews links type new) o n) :
      PairedBelow threshold links old new ⟨o, n, .exact⟩
  | bySimilarity {type : String} {o n : Entry} {olds news : List Entry}
      {chosen : Set (Entry × Entry)}
      (olds_iff : ∀ e, e ∈ olds ↔ e ∈ freeOlds links type old ∧ e.isIdentified = true ∧
        ∀ f, ¬PairedByKey (freeOlds links type old) (freeNews links type new) e f)
      (news_iff : ∀ e, e ∈ news ↔ e ∈ freeNews links type new ∧ e.isIdentified = true ∧
        ∀ f, ¬PairedByKey (freeOlds links type old) (freeNews links type new) f e)
      (best : BestMatching threshold olds news chosen) (mem : (o, n) ∈ chosen) :
      PairedBelow threshold links old new ⟨o, n, .similar⟩

/-- The links of the descent by recursion: what is joined right below two entries, and what is
joined below the pairs that this makes. -/
inductive TopDown (threshold : Binary64) (links : Links) : Entry → Entry → Link → Prop where
  | child {old new : Entry} {l : Link} (hl : PairedBelow threshold links old new l) :
      TopDown threshold links old new l
  | deeper {old new : Entry} {m l : Link} (hm : PairedBelow threshold links old new m)
      (hl : TopDown threshold links m.old m.new l) : TopDown threshold links old new l

section

variable {threshold : Binary64} {links : Links} {olds news : List Entry} {old new o n e : Entry}
  {l : Link}

lemma pairedByKey_comm : PairedByKey news olds n o ↔ PairedByKey olds news o n :=
  exists₂_congr fun _ _ => And.comm

lemma pairedByKey_iff : PairedByKey olds news o n ↔ (o, n) ∈ pairByKey olds news := by
  rw [mem_pairByKey, List.mem_iff_getElem?]
  simp only [List.getElem?_zip_eq_some]
  constructor
  · rintro ⟨key, k, ho, hn⟩
    have hkey : o.key = key := (mem_withKey.1 (List.mem_of_getElem? ho)).2
    exact ⟨k, hkey ▸ ho, hkey ▸ hn⟩
  · rintro ⟨k, ho, hn⟩
    exact ⟨_, k, ho, hn⟩

/-- Pairing by keys leaves over the entries with an identifier that have no counterpart. -/
lemma mem_restOld_iff (holds : (olds.map Entry.seq).Nodup) :
    e ∈ restOld olds news ↔
      e ∈ olds ∧ e.isIdentified = true ∧ ∀ f, ¬PairedByKey olds news e f := by
  rw [mem_restOld]
  refine and_congr_right fun he => and_congr_right fun _ =>
    ⟨fun h f hf => ?_, fun h p hp hseq => ?_⟩
  · exact h (e, f) (pairedByKey_iff.1 hf) rfl
  · have heq : p.1 = e := List.inj_on_of_nodup_map holds (fst_mem_of_mem_pairByKey hp) he hseq
    exact h p.2 (pairedByKey_iff.2 (heq ▸ hp))

lemma mem_restNew_iff (hnews : (news.map Entry.seq).Nodup) :
    e ∈ restNew olds news ↔
      e ∈ news ∧ e.isIdentified = true ∧ ∀ f, ¬PairedByKey olds news f e := by
  rw [← restOld_swap, mem_restOld_iff hnews]
  simp only [pairedByKey_comm]

/-- What pairing by keys leaves over is told apart by its numbers. -/
lemma injOn_restOld (holds : (olds.map Entry.seq).Nodup) :
    Set.InjOn Entry.seq {e | e ∈ restOld olds news} :=
  fun _ ha _ hb => List.inj_on_of_nodup_map holds (mem_restOld.1 ha).1 (mem_restOld.1 hb).1

lemma injOn_restNew (hnews : (news.map Entry.seq).Nodup) :
    Set.InjOn Entry.seq {e | e ∈ restNew olds news} := by
  rw [← restOld_swap]
  exact injOn_restOld hnews

/-- Best matchings do not depend on how the entries are listed. -/
lemma BestMatching.congr {olds' news' : List Entry} {chosen : Set (Entry × Entry)}
    (h : BestMatching threshold olds news chosen) (holds : ∀ e, e ∈ olds ↔ e ∈ olds')
    (hnews : ∀ e, e ∈ news ↔ e ∈ news') : BestMatching threshold olds' news' chosen where
  candidate p hp := by
    obtain ⟨ho, hn, hreaches⟩ := h.candidate p hp
    exact ⟨(holds _).1 ho, (hnews _).1 hn, hreaches⟩
  matching := h.matching
  blocked o ho n hn := h.blocked o ((holds o).2 ho) n ((hnews n).2 hn)

/-- **A stage joins what its description says.** -/
theorem pairedBelow_iff (hold : old.WellPlaced) (hnew : new.WellPlaced) :
    PairedBelow threshold links old new l ↔ l ∈ linkChildren threshold links old new := by
  constructor
  · intro h
    cases h with
    | @byKey type o n paired =>
      have hp := pairedByKey_iff.1 paired
      have htype : o.type = type := (mem_freeOlds.1 (fst_mem_of_mem_pairByKey hp)).2.2
      exact mem_linkChildren.2 (htype.symm ▸ mem_linkSiblings.2 (Or.inl ⟨rfl, hp⟩))
    | @bySimilarity type o n olds news chosen olds_iff news_iff best mem =>
      have holds : ((freeOlds links type old).map Entry.seq).Nodup := nodup_freeOlds hold
      have hnews : ((freeNews links type new).map Entry.seq).Nodup := nodup_freeNews hnew
      have hbest : BestMatching threshold
          (restOld (freeOlds links type old) (freeNews links type new))
          (restNew (freeOlds links type old) (freeNews links type new)) chosen :=
        best.congr (fun e => by rw [olds_iff, mem_restOld_iff holds])
          fun e => by rw [news_iff, mem_restNew_iff hnews]
      rw [bestMatching_iff (injOn_restOld holds) (injOn_restNew hnews)] at hbest
      rw [hbest] at mem
      have hc := mem_similarPairs.1 mem
      have hrest := (mem_similarCandidates.1 (mem_candidates_of_mem_pairSimilar hc)).1
      have htype : o.type = type := (mem_freeOlds.1 (mem_restOld.1 hrest).1).2.2
      exact mem_linkChildren.2
        (htype.symm ▸ mem_linkSiblings.2 (Or.inr ⟨rfl, _, hc, rfl, rfl⟩))
  · intro h
    obtain ⟨o, n, kind⟩ := l
    rcases mem_linkSiblings.1 (mem_linkChildren.1 h) with ⟨rfl, hp⟩ | ⟨rfl, c, hc, rfl, rfl⟩
    · exact .byKey (pairedByKey_iff.2 hp)
    · have holds : ((freeOlds links c.old.type old).map Entry.seq).Nodup := nodup_freeOlds hold
      have hnews : ((freeNews links c.old.type new).map Entry.seq).Nodup := nodup_freeNews hnew
      have hbest := @bestMatching_similarPairs threshold
        (restOld (freeOlds links c.old.type old) (freeNews links c.old.type new))
        (restNew (freeOlds links c.old.type old) (freeNews links c.old.type new))
        (injOn_restOld holds) (injOn_restNew hnews)
      exact .bySimilarity (fun e => mem_restOld_iff holds) (fun e => mem_restNew_iff hnews) hbest
        (List.mem_map.2 ⟨c, hc, rfl⟩)

/-- **The recursion makes the links of the descent.** -/
theorem topDown_iff (hold : old.WellPlaced) (hnew : new.WellPlaced) :
    TopDown threshold links old new l ↔ InPlace threshold links old new l := by
  constructor
  · intro h
    induction h with
    | child hl => exact .child ((pairedBelow_iff hold hnew).1 hl)
    | deeper hm _ ih =>
      have hm := (pairedBelow_iff hold hnew).1 hm
      exact .deeper hm (ih (hold.of_mem_children (old_of_mem_linkChildren hm).1)
        (hnew.of_mem_children (new_of_mem_linkChildren hm).1))
  · intro h
    induction h with
    | child hl => exact .child ((pairedBelow_iff hold hnew).2 hl)
    | deeper hm _ ih =>
      exact .deeper ((pairedBelow_iff hold hnew).2 hm)
        (ih (hold.of_mem_children (old_of_mem_linkChildren hm).1)
          (hnew.of_mem_children (new_of_mem_linkChildren hm).1))

end

/-! ## Types in any order -/

/-- The links that two joined entries give their children when the types are visited one after the
other; the children of a type are looked up when it is its turn. -/
def linkTypes (threshold : Binary64) (old new : Entry) : List String → Links → List Link
  | [], _ => []
  | type :: rest, links =>
    let made := linkSiblings threshold (freeOlds links type old) (freeNews links type new)
    made ++ linkTypes threshold old new rest (links.joinAll made)

section

variable {threshold : Binary64} {links : Links} {old new : Entry} {made : List Link}
  {type : String} {types : List String} {l : Link}

/-- Links of children of other types leave the children of a type free. -/
lemma freeOlds_joinAll (hold : old.WellPlaced)
    (hmade : ∀ l ∈ made, l.old ∈ old.children ∧ l.old.type ≠ type) :
    freeOlds (links.joinAll made) type old = freeOlds links type old := by
  rw [freeOlds_of_subset fun l hl => Links.mem_joinAll.2 (Or.inr hl), List.filter_eq_self]
  intro e he
  obtain ⟨hchild, hfree, htype⟩ := mem_freeOlds.1 he
  refine Links.freeOld_iff.2 fun l hl hseq => ?_
  rcases Links.mem_joinAll.1 hl with hl | hl
  · obtain ⟨hlold, hltype⟩ := hmade l hl
    have heq : l.old = e := List.inj_on_of_nodup_map hold.nodup_children hlold hchild hseq
    exact hltype (heq ▸ htype)
  · exact Links.freeOld_iff.1 hfree l hl hseq

lemma freeNews_joinAll (hnew : new.WellPlaced)
    (hmade : ∀ l ∈ made, l.new ∈ new.children ∧ l.new.type ≠ type) :
    freeNews (links.joinAll made) type new = freeNews links type new := by
  rw [freeNews_of_subset fun l hl => Links.mem_joinAll.2 (Or.inr hl), List.filter_eq_self]
  intro e he
  obtain ⟨hchild, hfree, htype⟩ := mem_freeNews.1 he
  refine Links.freeNew_iff.2 fun l hl hseq => ?_
  rcases Links.mem_joinAll.1 hl with hl | hl
  · obtain ⟨hlnew, hltype⟩ := hmade l hl
    have heq : l.new = e := List.inj_on_of_nodup_map hnew.nodup_children hlnew hchild hseq
    exact hltype (heq ▸ htype)
  · exact Links.freeNew_iff.1 hfree l hl hseq

/-- A type finds its children as they were before the other types. -/
lemma linkTypes_eq (hold : old.WellPlaced) (hnew : new.WellPlaced) (htypes : types.Nodup) :
    linkTypes threshold old new types links = types.flatMap fun type =>
      linkSiblings threshold (freeOlds links type old) (freeNews links type new) := by
  induction types generalizing links with
  | nil => rfl
  | cons type rest ih =>
    rw [List.nodup_cons] at htypes
    rw [linkTypes, ih htypes.2, List.flatMap_cons]
    refine congrArg _ (List.flatMap_congr fun later hlater => ?_)
    have hne : type ≠ later := fun heq => htypes.1 (heq ▸ hlater)
    rw [freeOlds_joinAll hold, freeNews_joinAll hnew]
    · intro l hl
      obtain ⟨hchild, -, htype⟩ := mem_freeNews.1 (new_mem_of_mem_linkSiblings hl)
      exact ⟨hchild, htype ▸ hne⟩
    · intro l hl
      obtain ⟨hchild, -, htype⟩ := mem_freeOlds.1 (old_mem_of_mem_linkSiblings hl)
      exact ⟨hchild, htype ▸ hne⟩

/-- **The order of types makes no difference** to the links of a stage. -/
theorem perm_linkTypes (hold : old.WellPlaced) (hnew : new.WellPlaced)
    (htypes : types.Perm (typesOf (old.children.filter links.freeOld))) :
    (linkTypes threshold old new types links).Perm (linkChildren threshold links old new) := by
  rw [linkTypes_eq hold hnew (htypes.nodup_iff.2 (nodup_typesOf _))]
  exact htypes.flatMap_right _

end

/-! ## Steps -/

/-- The joined pairs below which the children are still to be linked, and the links made so far. -/
structure Worklist where
  pending : List (Entry × Entry)
  links : Links

namespace Worklist

/-- What is left when links were made below a pair that was taken, with the other pairs. -/
def andThen (links : Links) (made : List Link) (rest : List (Entry × Entry)) : Worklist :=
  ⟨made.map (fun l => (l.old, l.new)) ++ rest, links.joinAll made⟩

/-- One step: any of the pairs that wait is taken, its children are linked with the types in any
order, and the pairs that this makes wait with the others. -/
inductive Step (threshold : Binary64) (s : Worklist) : Worklist → Prop where
  | take {old new : Entry} {rest : List (Entry × Entry)} {types : List String}
      (pending_perm : s.pending.Perm ((old, new) :: rest))
      (types_perm : types.Perm (typesOf (old.children.filter s.links.freeOld))) :
      Step threshold s (andThen s.links (linkTypes threshold old new types s.links) rest)

/-- Whether one worklist comes from another one by steps. -/
def Run (threshold : Binary64) : Worklist → Worklist → Prop :=
  Relation.ReflTransGen (Step threshold)

/-- The links that are there and those that the pairs that wait will add. -/
def Outcome (threshold : Binary64) (s : Worklist) (l : Link) : Prop :=
  l ∈ s.links ∨ ∃ p ∈ s.pending, InPlace threshold s.links p.1 p.2 l

/-- Whether the trees below two pairs have nothing in common. -/
def Apart (p q : Entry × Entry) : Prop :=
  (∀ x ∈ p.1.descendants, ∀ y ∈ q.1.descendants, x.seq ≠ y.seq) ∧
    ∀ x ∈ p.2.descendants, ∀ y ∈ q.2.descendants, x.seq ≠ y.seq

instance : Std.Symm Apart :=
  ⟨fun _ _ h => ⟨fun x hx y hy => (h.1 y hy x hx).symm, fun x hx y hy => (h.2 y hy x hx).symm⟩⟩

/-- A worklist whose pairs head trees that have nothing in common. -/
structure Tidy (s : Worklist) : Prop where
  placed : ∀ p ∈ s.pending, p.1.WellPlaced ∧ p.2.WellPlaced
  apart : s.pending.Pairwise Apart

variable {threshold : Binary64} {s t : Worklist} {old new : Entry} {links : Links}
  {rest : List (Entry × Entry)} {made : List Link} {l : Link} {p q : Entry × Entry}

/-! ### Every run comes to an end -/

/-- The pairs that are added lie below the one that was taken. -/
lemma wellFounded_below : WellFounded fun p q : Entry × Entry => p.1 ∈ q.1.children := by
  refine ⟨fun ⟨e, f⟩ => ?_⟩
  induction e using Entry.induction_children generalizing f with
  | step e ih => exact ⟨_, fun ⟨c, d⟩ hc => ih c hc d⟩

lemma old_of_mem_linkTypes {types : List String}
    (hl : l ∈ linkTypes threshold old new types links) : l.old ∈ old.children := by
  induction types generalizing links with
  | nil => exact absurd hl List.not_mem_nil
  | cons type rest ih =>
    rcases List.mem_append.1 hl with hl | hl
    · exact (mem_freeOlds.1 (old_mem_of_mem_linkSiblings hl)).1
    · exact ih hl

/-- A step replaces a pair by finitely many pairs that lie below it. -/
lemma Step.cutExpand (h : Step threshold s t) : Relation.CutExpand
    (fun p q : Entry × Entry => p.1 ∈ q.1.children) (t.pending : Multiset _) s.pending := by
  cases h with
  | @take old new rest types pending_perm _ =>
    generalize hmade : linkTypes threshold old new types s.links = made
    refine ⟨(made.map fun l => (l.old, l.new) : List (Entry × Entry)), (old, new),
      fun p hp => ?_, ?_⟩
    · obtain ⟨l, hl, rfl⟩ := List.mem_map.1 (Multiset.mem_coe.1 hp)
      exact old_of_mem_linkTypes (hmade ▸ hl)
    · rw [andThen, Multiset.coe_eq_coe.2 pending_perm, ← Multiset.coe_singleton, Multiset.coe_add,
        Multiset.coe_add, Multiset.coe_eq_coe]
      refine List.perm_append_comm.trans ?_
      rw [List.singleton_append, List.cons_append]
      exact List.perm_append_comm.cons (old, new)

/-- **There is no endless run.** -/
theorem wellFounded_step (threshold : Binary64) :
    WellFounded fun t s : Worklist => Step threshold s t := by
  have hcut := InvImage.wf (fun s : Worklist => (s.pending : Multiset (Entry × Entry)))
    wellFounded_below.cutExpand
  exact hcut.mono fun _ _ h => h.cutExpand

/-- As long as pairs wait, there is a step. -/
lemma pending_eq_nil (h : ∀ t, ¬Step threshold s t) : s.pending = [] := by
  cases hpending : s.pending with
  | nil => rfl
  | cons p rest =>
    exact absurd (.take (List.Perm.of_eq hpending) (List.Perm.refl _)) (h _)

/-! ### What a step preserves -/

/-- The pair that is taken and the pairs that are left. -/
lemma Tidy.taken (h : s.Tidy) (hperm : s.pending.Perm ((old, new) :: rest)) :
    old.WellPlaced ∧ new.WellPlaced ∧ Tidy ⟨rest, s.links⟩ ∧ ∀ p ∈ rest, Apart (old, new) p := by
  have hplaced : ∀ p ∈ (old, new) :: rest, p.1.WellPlaced ∧ p.2.WellPlaced :=
    fun p hp => h.placed p (hperm.mem_iff.2 hp)
  have hapart : ((old, new) :: rest).Pairwise Apart := h.apart.perm hperm fun h => symm h
  obtain ⟨hfirst, hrest⟩ := List.pairwise_cons.1 hapart
  obtain ⟨hold, hnew⟩ := hplaced _ List.mem_cons_self
  exact ⟨hold, hnew, ⟨fun p hp => hplaced p (List.mem_cons_of_mem _ hp), hrest⟩, hfirst⟩

/-- The pairs that a stage makes head trees that have nothing in common. -/
lemma pairwise_apart_of_perm (hold : old.WellPlaced) (hnew : new.WellPlaced)
    (hmade : made.Perm (linkChildren threshold links old new)) :
    (made.map fun l => (l.old, l.new)).Pairwise Apart := by
  rw [List.pairwise_map]
  have hone : made.Pairwise Link.Apart :=
    (oneToOne_linkChildren threshold links hold hnew).perm hmade.symm fun h => symm h
  refine hone.imp_of_mem fun {l m} hl hm hlm => ⟨fun x hx y hy hseq => ?_, fun x hx y hy hseq => ?_⟩
  · have heq := hold.eq_of_mem_children (old_of_mem_linkChildren (hmade.mem_iff.1 hl)).1
      (old_of_mem_linkChildren (hmade.mem_iff.1 hm)).1 (Entry.mem_preorder_of_mem_descendants hx)
      (Entry.mem_preorder_of_mem_descendants hy) hseq
    exact hlm.1 (congrArg Entry.seq heq)
  · have heq := hnew.eq_of_mem_children (new_of_mem_linkChildren (hmade.mem_iff.1 hl)).1
      (new_of_mem_linkChildren (hmade.mem_iff.1 hm)).1 (Entry.mem_preorder_of_mem_descendants hx)
      (Entry.mem_preorder_of_mem_descendants hy) hseq
    exact hlm.2 (congrArg Entry.seq heq)

lemma Tidy.andThen (hold : old.WellPlaced) (hnew : new.WellPlaced)
    (hmade : made.Perm (linkChildren threshold links old new)) (hrest : Tidy ⟨rest, links⟩)
    (hapart : ∀ p ∈ rest, Apart (old, new) p) : Tidy (andThen links made rest) where
  placed p hp := by
    rcases List.mem_append.1 hp with hp | hp
    · obtain ⟨l, hl, rfl⟩ := List.mem_map.1 hp
      have hl := hmade.mem_iff.1 hl
      exact ⟨hold.of_mem_children (old_of_mem_linkChildren hl).1,
        hnew.of_mem_children (new_of_mem_linkChildren hl).1⟩
    · exact hrest.placed p hp
  apart := by
    refine List.pairwise_append.2 ⟨pairwise_apart_of_perm hold hnew hmade, hrest.apart, ?_⟩
    intro p hp q hq
    obtain ⟨l, hl, rfl⟩ := List.mem_map.1 hp
    have hl := hmade.mem_iff.1 hl
    have hlold := Entry.child_mem_preorder (Entry.mem_preorder_self old)
      (old_of_mem_linkChildren hl).1
    have hlnew := Entry.child_mem_preorder (Entry.mem_preorder_self new)
      (new_of_mem_linkChildren hl).1
    exact ⟨fun x hx => (hapart q hq).1 x (Entry.descendants_trans hlold hx),
      fun x hx => (hapart q hq).2 x (Entry.descendants_trans hlnew hx)⟩

/-- The links of a stage leave alone the descents from pairs that have nothing in common with it. -/
lemma Apart.undisturbed (h : Apart (old, new) p)
    (hmade : made.Perm (linkChildren threshold links old new)) :
    Undisturbed links (links.joinAll made) p.1 p.2 := by
  constructor
  · intro e he hfree
    refine Links.freeOld_iff.2 fun l hl hseq => ?_
    rcases Links.mem_joinAll.1 hl with hl | hl
    · have hchild := (old_of_mem_linkChildren (hmade.mem_iff.1 hl)).1
      exact h.1 l.old (Entry.mem_descendants_of_mem_children hchild) e he hseq
    · exact Links.freeOld_iff.1 hfree l hl hseq
  · intro e he hfree
    refine Links.freeNew_iff.2 fun l hl hseq => ?_
    rcases Links.mem_joinAll.1 hl with hl | hl
    · have hchild := (new_of_mem_linkChildren (hmade.mem_iff.1 hl)).1
      exact h.2 l.new (Entry.mem_descendants_of_mem_children hchild) e he hseq
    · exact Links.freeNew_iff.1 hfree l hl hseq

/-- Below the pairs that a stage makes, the descent is the same before and after the stage. -/
lemma inPlace_joinAll_iff (hold : old.WellPlaced) (hnew : new.WellPlaced)
    (hmade : made.Perm (linkChildren threshold links old new)) {m : Link} (hm : m ∈ made) :
    InPlace threshold (links.joinAll made) m.old m.new l ↔
      InPlace threshold links m.old m.new l := by
  have hsame : ∀ l, l ∈ links.joinAll made ↔
      l ∈ links.joinAll (linkChildren threshold links old new) := fun l => by
    rw [Links.mem_joinAll, Links.mem_joinAll, hmade.mem_iff]
  have hm := hmade.mem_iff.1 hm
  rw [← (undisturbed_joinAll hold hnew hm).inPlace_iff
    (hold.of_mem_children (old_of_mem_linkChildren hm).1)
    (hnew.of_mem_children (new_of_mem_linkChildren hm).1)
    fun l hl => Links.mem_joinAll.2 (Or.inr hl)]
  exact ⟨fun h => h.congr hsame, fun h => h.congr fun l => (hsame l).symm⟩

/-- The descent is one stage and the descents below the pairs that it makes. -/
lemma inPlace_iff_of_perm (hmade : made.Perm (linkChildren threshold links old new)) :
    InPlace threshold links old new l ↔
      l ∈ made ∨ ∃ m ∈ made, InPlace threshold links m.old m.new l := by
  constructor
  · intro h
    cases h with
    | child hl => exact Or.inl (hmade.mem_iff.2 hl)
    | deeper hm hl => exact Or.inr ⟨_, hmade.mem_iff.2 hm, hl⟩
  · rintro (hl | ⟨m, hm, hl⟩)
    · exact .child (hmade.mem_iff.1 hl)
    · exact .deeper (hmade.mem_iff.1 hm) hl

lemma outcome_andThen (hold : old.WellPlaced) (hnew : new.WellPlaced)
    (hmade : made.Perm (linkChildren threshold links old new)) (hrest : Tidy ⟨rest, links⟩)
    (hapart : ∀ p ∈ rest, Apart (old, new) p) :
    (andThen links made rest).Outcome threshold l ↔
      Outcome threshold ⟨(old, new) :: rest, links⟩ l := by
  have hbelow : (∃ p ∈ made.map fun m => (m.old, m.new),
      InPlace threshold (links.joinAll made) p.1 p.2 l) ↔
        ∃ m ∈ made, InPlace threshold links m.old m.new l := by
    constructor
    · rintro ⟨p, hp, hl⟩
      obtain ⟨m, hm, rfl⟩ := List.mem_map.1 hp
      exact ⟨m, hm, (inPlace_joinAll_iff hold hnew hmade hm).1 hl⟩
    · rintro ⟨m, hm, hl⟩
      exact ⟨_, List.mem_map_of_mem hm, (inPlace_joinAll_iff hold hnew hmade hm).2 hl⟩
  have hothers : (∃ p ∈ rest, InPlace threshold (links.joinAll made) p.1 p.2 l) ↔
      ∃ p ∈ rest, InPlace threshold links p.1 p.2 l := by
    refine exists_congr fun p => and_congr_right fun hp => ?_
    obtain ⟨hpold, hpnew⟩ := hrest.placed p hp
    exact ((hapart p hp).undisturbed hmade).inPlace_iff hpold hpnew
      fun l hl => Links.mem_joinAll.2 (Or.inr hl)
  simp only [Outcome, Worklist.andThen, List.mem_append, or_and_right, exists_or, List.mem_cons,
    exists_eq_left, Links.mem_joinAll]
  rw [hbelow, hothers, inPlace_iff_of_perm hmade, or_comm (a := l ∈ made), or_assoc, or_assoc]

/-- The order in which pairs wait makes no difference to the outcome. -/
lemma outcome_congr {before after : List (Entry × Entry)} (h : before.Perm after) :
    Outcome threshold ⟨before, links⟩ l ↔ Outcome threshold ⟨after, links⟩ l :=
  or_congr Iff.rfl (exists_congr fun _ => and_congr_left fun _ => h.mem_iff)

/-- Whether links were added that join entries that were free, none of them twice. -/
def Grows (before after : Links) : Prop :=
  ∃ more : Links, after = more ++ before ∧ more.OneToOne ∧
    ∀ l ∈ more, before.freeOld l.old = true ∧ before.freeNew l.new = true

lemma Grows.refl (links : Links) : Grows links links :=
  ⟨[], rfl, List.Pairwise.nil, fun _ hl => absurd hl List.not_mem_nil⟩

lemma Grows.trans {first second third : Links} (h : Grows first second) (h' : Grows second third) :
    Grows first third := by
  obtain ⟨more, rfl, hone, hfree⟩ := h
  obtain ⟨more', rfl, hone', hfree'⟩ := h'
  refine ⟨more' ++ more, (List.append_assoc _ _ _).symm, ?_, fun l hl => ?_⟩
  · refine List.pairwise_append.2 ⟨hone', hone, fun l hl m hm => ?_⟩
    have hin : m ∈ more ++ first := List.mem_append_left _ hm
    obtain ⟨hold, hnew⟩ := hfree' l hl
    exact ⟨(Links.freeOld_iff.1 hold m hin).symm, (Links.freeNew_iff.1 hnew m hin).symm⟩
  · rcases List.mem_append.1 hl with hl | hl
    · obtain ⟨hold, hnew⟩ := hfree' l hl
      exact ⟨Links.freeOld_of_subset (List.subset_append_right _ _) hold,
        Links.freeNew_of_subset (List.subset_append_right _ _) hnew⟩
    · exact hfree l hl

lemma grows_joinAll (hold : old.WellPlaced) (hnew : new.WellPlaced)
    (hmade : made.Perm (linkChildren threshold links old new)) :
    Grows links (links.joinAll made) := by
  refine ⟨made.reverse, Links.joinAll_eq links made, ?_, fun l hl => ?_⟩
  · exact (oneToOne_linkChildren threshold links hold hnew).perm
      ((List.reverse_perm made).trans hmade).symm fun h => symm h
  · have hl := hmade.mem_iff.1 (List.mem_reverse.1 hl)
    exact ⟨(old_of_mem_linkChildren hl).2, (new_of_mem_linkChildren hl).2⟩

/-- **What a step preserves**: the trees below the pairs that wait have nothing in common, the
outcome is the same, and the links that are there stay. -/
theorem Step.preserves (h : Step threshold s t) (hs : s.Tidy) :
    t.Tidy ∧ (∀ l, t.Outcome threshold l ↔ s.Outcome threshold l) ∧ Grows s.links t.links := by
  cases h with
  | @take old new rest types pending_perm types_perm =>
    obtain ⟨hold, hnew, hrest, hapart⟩ := hs.taken pending_perm
    have hmade : (linkTypes threshold old new types s.links).Perm
        (linkChildren threshold s.links old new) := perm_linkTypes hold hnew types_perm
    refine ⟨.andThen hold hnew hmade hrest hapart, fun l => ?_, grows_joinAll hold hnew hmade⟩
    rw [outcome_andThen hold hnew hmade hrest hapart]
    exact outcome_congr pending_perm.symm

/-- **What a run preserves.** -/
theorem preserves_of_run (h : Run threshold s t) (hs : s.Tidy) :
    t.Tidy ∧ (∀ l, t.Outcome threshold l ↔ s.Outcome threshold l) ∧ Grows s.links t.links := by
  induction h with
  | refl => exact ⟨hs, fun _ => Iff.rfl, .refl _⟩
  | tail _ hstep ih =>
    obtain ⟨htidy, hout, hgrows⟩ := ih
    obtain ⟨htidy', hout', hgrows'⟩ := hstep.preserves htidy
    exact ⟨htidy', fun l => (hout' l).trans (hout l), hgrows.trans hgrows'⟩

/-! ### The recursion is a run -/

/-- The pairs that a stage makes, in the order of the old children. -/
lemma perm_filterMap_children (hold : old.WellPlaced) (hnew : new.WellPlaced) :
    ((linkChildren threshold links old new).map fun l => (l.old, l.new)).Perm
      (old.children.filterMap fun c =>
        (Links.ofOld? (linkChildren threshold links old new) c).map fun l => (c, l.new)) := by
  have hone := oneToOne_linkChildren threshold links hold hnew
  have hpairs : ((linkChildren threshold links old new).map fun l => (l.old, l.new)).Nodup :=
    List.Pairwise.map _ (fun l m hlm heq => hlm.1 (congrArg (fun p => p.1.seq) heq)) hone
  have hvisits : (old.children.filterMap fun c =>
      (Links.ofOld? (linkChildren threshold links old new) c).map fun l => (c, l.new)).Nodup := by
    refine hold.nodup_children.of_map.filterMap fun c d p hc hd => ?_
    obtain ⟨l, -, rfl⟩ := Option.map_eq_some_iff.1 hc
    obtain ⟨m, -, hp⟩ := Option.map_eq_some_iff.1 hd
    exact (congrArg Prod.fst hp).symm
  -- neither side has a pair twice, so it is enough that they have the same pairs
  rw [List.perm_ext_iff_of_nodup hpairs hvisits]
  intro p
  rw [List.mem_map, List.mem_filterMap]
  constructor
  · rintro ⟨l, hl, rfl⟩
    exact ⟨l.old, (old_of_mem_linkChildren hl).1,
      Option.map_eq_some_iff.2 ⟨l, hone.ofOld?_eq_some_iff.2 ⟨hl, rfl⟩, rfl⟩⟩
  · rintro ⟨c, hc, hp⟩
    obtain ⟨l, hfind, rfl⟩ := Option.map_eq_some_iff.1 hp
    obtain ⟨hl, hseq⟩ := hone.ofOld?_eq_some_iff.1 hfind
    have heq : l.old = c :=
      List.inj_on_of_nodup_map hold.nodup_children (old_of_mem_linkChildren hl).1 hc hseq
    exact ⟨l, hl, by rw [heq]⟩

/-- The induction runs over the children that are still to be visited. -/
lemma exists_run_linkBelowEach {children : List Entry}
    (hplaced : ∀ m ∈ made, m.new.WellPlaced)
    (ih : ∀ c ∈ children, ∀ {d s rest}, d.WellPlaced → s.pending.Perm ((c, d) :: rest) →
      ∃ after, after.Perm rest ∧ Run threshold s ⟨after, linkBelow threshold c d s.links⟩)
    (hperm : s.pending.Perm
      ((children.filterMap fun c => (Links.ofOld? made c).map fun l => (c, l.new)) ++ rest)) :
    ∃ after, after.Perm rest ∧
      Run threshold s ⟨after, linkBelowEach threshold made children s.links⟩ := by
  induction children generalizing s with
  | nil => exact ⟨s.pending, hperm, .refl⟩
  | cons c others ihothers =>
    have hlater := fun d (hd : d ∈ others) => @ih d (List.mem_cons_of_mem c hd)
    rw [linkBelowEach]
    cases hfind : Links.ofOld? made c with
    | none =>
      rw [List.filterMap_cons_none (by rw [hfind]; rfl)] at hperm
      have hnone : made.find? (fun link => link.old.seq = c.seq) = none := hfind
      rw [hnone]
      exact ihothers hlater hperm
    | some m =>
      have hsome : made.find? (fun link => link.old.seq = c.seq) = some m := hfind
      rw [List.filterMap_cons_some (by rw [hfind]; rfl), List.cons_append] at hperm
      rw [hsome]
      obtain ⟨after, hafter, hrun⟩ :=
        ih c List.mem_cons_self (hplaced m (Links.mem_of_ofOld? hfind)) hperm
      -- one visit, then the rest with the pairs it leaves
      obtain ⟨last, hlast, hrun'⟩ := ihothers (s := ⟨after, _⟩) hlater hafter
      exact ⟨last, hlast, hrun.trans hrun'⟩

/-- **The recursion is a run.**  It takes a pair and then the pairs below it, and leaves the
rest. -/
theorem exists_run_linkBelow (hold : old.WellPlaced) (hnew : new.WellPlaced)
    (hperm : s.pending.Perm ((old, new) :: rest)) :
    ∃ after, after.Perm rest ∧ Run threshold s ⟨after, linkBelow threshold old new s.links⟩ := by
  induction old using Entry.induction_children generalizing new s rest with
  | step old ih =>
    have hmade : linkTypes threshold old new (typesOf (old.children.filter s.links.freeOld))
        s.links = linkChildren threshold s.links old new :=
      linkTypes_eq hold hnew (nodup_typesOf _)
    have hstep : Step threshold s
        (andThen s.links (linkChildren threshold s.links old new) rest) :=
      hmade ▸ .take hperm (List.Perm.refl _)
    have hvisits : ((linkChildren threshold s.links old new).map fun l => (l.old, l.new)).Perm
        (old.children.filterMap fun c =>
          (Links.ofOld? (linkChildren threshold s.links old new) c).map fun l => (c, l.new)) :=
      perm_filterMap_children hold hnew
    obtain ⟨after, hafter, hrun⟩ := exists_run_linkBelowEach (s := andThen s.links _ rest)
      (fun m hm => hnew.of_mem_children (new_of_mem_linkChildren hm).1)
      (fun c hc {_ _ _} hd => ih c hc (hold.of_mem_children hc) hd) (hvisits.append_right rest)
    rw [linkBelow_eq]
    exact ⟨after, hafter, .head hstep hrun⟩

/-! ### All runs end with the same links -/

section

variable {before more more' after after' : Links} {e : Entry}

/-- A link of an entry that was free was not there. -/
lemma not_mem_of_freeOld (h : before.freeOld l.old = true) : l ∉ before := fun hl => by
  rw [Links.freeOld_of_mem hl] at h
  exact absurd h (by decide)

lemma ofOld?_append :
    Links.ofOld? (more ++ before) e = (Links.ofOld? more e).or (Links.ofOld? before e) :=
  List.find?_append

lemma ofNew?_append :
    Links.ofNew? (more ++ before) e = (Links.ofNew? more e).or (Links.ofNew? before e) :=
  List.find?_append

/-- Entries of which no link was added keep theirs. -/
lemma Grows.ofOld?_eq (h : Grows before after)
    (hout : ∀ l ∈ after, l ∉ before → l.old.seq ≠ e.seq) : after.ofOld? e = before.ofOld? e := by
  obtain ⟨more, rfl, -, hfree⟩ := h
  have hnone : Links.ofOld? more e = none := List.find?_eq_none.2 fun l hl hseq =>
    hout l (List.mem_append_left _ hl) (not_mem_of_freeOld (hfree l hl).1) (by simpa using hseq)
  rw [ofOld?_append, hnone, Option.none_or]

lemma Grows.ofNew?_eq (h : Grows before after)
    (hout : ∀ l ∈ after, l ∉ before → l.new.seq ≠ e.seq) : after.ofNew? e = before.ofNew? e := by
  obtain ⟨more, rfl, -, hfree⟩ := h
  have hnone : Links.ofNew? more e = none := List.find?_eq_none.2 fun l hl hseq =>
    hout l (List.mem_append_left _ hl) (not_mem_of_freeOld (hfree l hl).1) (by simpa using hseq)
  rw [ofNew?_append, hnone, Option.none_or]

/-- Links that join nobody twice say the same when they are the same up to their order. -/
lemma lookups_eq_of_mem_iff (hone : more.OneToOne) (hone' : more'.OneToOne)
    (h : ∀ l, l ∈ more ↔ l ∈ more') :
    more.Perm more' ∧ (∀ e, more.ofOld? e = more'.ofOld? e) ∧
      ∀ e, more.ofNew? e = more'.ofNew? e := by
  have hnodup : ∀ {links : Links}, links.OneToOne → links.Nodup :=
    fun hone => hone.imp fun hlm heq => hlm.1 (congrArg (fun l => l.old.seq) heq)
  refine ⟨(List.perm_ext_iff_of_nodup (hnodup hone) (hnodup hone')).2 h, fun e => ?_, fun e => ?_⟩
  · refine Option.ext fun l => ?_
    rw [hone.ofOld?_eq_some_iff, hone'.ofOld?_eq_some_iff, h]
  · refine Option.ext fun l => ?_
    rw [hone.ofNew?_eq_some_iff, hone'.ofNew?_eq_some_iff, h]

/-- Two ways to add the same links are the same up to the order of the links. -/
lemma Grows.lookups_eq (h : Grows before after) (h' : Grows before after')
    (hsame : ∀ l, l ∈ after ↔ l ∈ after') :
    after.Perm after' ∧ (∀ e, after.ofOld? e = after'.ofOld? e) ∧
      ∀ e, after.ofNew? e = after'.ofNew? e := by
  obtain ⟨more, rfl, hone, hfree⟩ := h
  obtain ⟨more', rfl, hone', hfree'⟩ := h'
  have hadded : ∀ l, l ∈ more ↔ l ∈ more' := fun l => by
    have hl := hsame l
    rw [List.mem_append, List.mem_append] at hl
    constructor
    · intro hin
      exact (hl.1 (Or.inl hin)).resolve_right (not_mem_of_freeOld (hfree l hin).1)
    · intro hin
      exact (hl.2 (Or.inl hin)).resolve_right (not_mem_of_freeOld (hfree' l hin).1)
  obtain ⟨hperm, hold, hnew⟩ := lookups_eq_of_mem_iff hone hone' hadded
  refine ⟨hperm.append_right before, fun e => ?_, fun e => ?_⟩
  · rw [ofOld?_append, ofOld?_append, hold e]
  · rw [ofNew?_append, ofNew?_append, hnew e]

end

lemma outcome_of_pending_eq_nil (h : s.pending = []) : s.Outcome threshold l ↔ l ∈ s.links := by
  rw [Outcome, h]
  exact or_iff_left fun ⟨p, hp, _⟩ => absurd hp List.not_mem_nil

/-- The links with which the descent from two entries of two trees ends. -/
structure EndsWith (threshold : Binary64) (oldRoot newRoot : Entry) (before : Links)
    (old new : Entry) (after : Links) : Prop where
  /-- They are those of the descent by recursion. -/
  mem_iff : ∀ l, l ∈ after ↔ l ∈ before ∨ TopDown threshold before old new l
  /-- So they are those that the recursion makes, and every entry has the same link with the same
  kind. -/
  perm : after.Perm (linkBelow threshold old new before)
  ofOld?_eq : ∀ e, after.ofOld? e = (linkBelow threshold old new before).ofOld? e
  ofNew?_eq : ∀ e, after.ofNew? e = (linkBelow threshold old new before).ofNew? e
  /-- Entries that do not lie below the two entries keep what they had. -/
  old_outside : ∀ e ∈ oldRoot.preorder, e ∉ old.descendants → after.ofOld? e = before.ofOld? e
  new_outside : ∀ e ∈ newRoot.preorder, e ∉ new.descendants → after.ofNew? e = before.ofNew? e

lemma tidy_singleton (hold : old.WellPlaced) (hnew : new.WellPlaced) :
    Tidy ⟨[(old, new)], links⟩ where
  placed p hp := by
    rw [List.mem_singleton.1 hp]
    exact ⟨hold, hnew⟩
  apart := List.pairwise_singleton _ _

/-- The recursion is a run from its pair to the end. -/
lemma run_linkBelow (hold : old.WellPlaced) (hnew : new.WellPlaced) :
    Run threshold ⟨[(old, new)], links⟩ ⟨[], linkBelow threshold old new links⟩ := by
  obtain ⟨after, hafter, hrun⟩ : ∃ after, after.Perm [] ∧
      Run threshold ⟨[(old, new)], links⟩ ⟨after, linkBelow threshold old new links⟩ :=
    exists_run_linkBelow hold hnew (.refl _)
  rwa [hafter.eq_nil] at hrun

/-- **Every run ends with the links of the recursion.** -/
theorem endsWith_of_run {oldRoot newRoot : Entry} (hold : oldRoot.WellPlaced)
    (hnew : newRoot.WellPlaced) (ho : old ∈ oldRoot.preorder) (hn : new ∈ newRoot.preorder)
    (hrun : Run threshold ⟨[(old, new)], links⟩ s) (hend : ∀ t, ¬Step threshold s t) :
    EndsWith threshold oldRoot newRoot links old new s.links := by
  have hold' := hold.of_mem ho
  have hnew' := hnew.of_mem hn
  obtain ⟨-, hout, hgrows⟩ := preserves_of_run hrun (tidy_singleton hold' hnew')
  have hrun' : Run threshold ⟨[(old, new)], links⟩ ⟨[], linkBelow threshold old new links⟩ :=
    run_linkBelow hold' hnew'
  obtain ⟨-, -, hgrows'⟩ := preserves_of_run hrun' (tidy_singleton hold' hnew')
  -- at the end no pair waits, so the outcome is what is there
  have hmem : ∀ l, l ∈ s.links ↔ l ∈ links ∨ InPlace threshold links old new l := fun l => by
    rw [← outcome_of_pending_eq_nil (pending_eq_nil hend), hout l]
    simp only [Outcome, List.mem_singleton, exists_eq_left]
  obtain ⟨hperm, hofOld, hofNew⟩ :=
    hgrows.lookups_eq hgrows' fun l => (hmem l).trans (mem_linkBelow hold' hnew').symm
  refine ⟨fun l => (hmem l).trans (or_congr_right (topDown_iff hold' hnew').symm), hperm, hofOld,
    hofNew, fun e he hskip => ?_, fun e he hskip => ?_⟩
  · refine hgrows.ofOld?_eq fun l hl hnot hseq => hskip ?_
    have hlold := (((hmem l).1 hl).resolve_left hnot).old_mem
    rwa [← hold.eq_of_seq (Entry.mem_preorder_of_mem_descendants
      (Entry.descendants_trans ho hlold)) he hseq]
  · refine hgrows.ofNew?_eq fun l hl hnot hseq => hskip ?_
    have hlnew := (((hmem l).1 hl).resolve_left hnot).new_mem
    rwa [← hnew.eq_of_seq (Entry.mem_preorder_of_mem_descendants
      (Entry.descendants_trans hn hlnew)) he hseq]

end Worklist

/-- **The descent is a confluent worklist.**  For any entries of two trees and any links that are
there before, no order in which pairs are taken and types are visited goes on for ever, the
recursion is one of the orders, and all of them end with no pair waiting and with the same links,
those of the descent by recursion; nobody outside the two subtrees is touched. -/
theorem worklist_confluent (threshold : Binary64) (oldTree newTree : Outline) (links : Links)
    (old new : Entry) (hold : old ∈ (Entry.root oldTree).preorder)
    (hnew : new ∈ (Entry.root newTree).preorder) :
    Acc (fun t s => Worklist.Step threshold s t) ⟨[(old, new)], links⟩ ∧
    Worklist.Run threshold ⟨[(old, new)], links⟩ ⟨[], linkBelow threshold old new links⟩ ∧
    ∀ s, Worklist.Run threshold ⟨[(old, new)], links⟩ s → (∀ t, ¬Worklist.Step threshold s t) →
      s.pending = [] ∧ Worklist.EndsWith threshold (.root oldTree) (.root newTree) links old new
        s.links := by
  have hroot := Entry.wellPlaced_root oldTree
  have hroot' := Entry.wellPlaced_root newTree
  refine ⟨(Worklist.wellFounded_step threshold).apply _,
    Worklist.run_linkBelow (hroot.of_mem hold) (hroot'.of_mem hnew), fun s hrun hend => ?_⟩
  exact ⟨Worklist.pending_eq_nil hend, Worklist.endsWith_of_run hroot hroot' hold hnew hrun hend⟩

/-- One of two functions of the same name was joined before; the worklist joins the other one with
the first function of that name that is there. -/
theorem worklist_confluent_twins :
    Entry.root (.functionPair "f" "f" "x" "y") ∈
      (Entry.root (.functionPair "f" "f" "x" "y")).preorder ∧
    Entry.root (.functionPair "f" "g" "y" "x") ∈
      (Entry.root (.functionPair "f" "g" "y" "x")).preorder ∧
    ∃ first second same other : Entry,
      Entry.functionPair "f" "f" "x" "y" = [first, second] ∧
      Entry.functionPair "f" "g" "y" "x" = [same, other] ∧
      (∃ s, Worklist.Run .one ⟨[(.root (.functionPair "f" "f" "x" "y"),
          .root (.functionPair "f" "g" "y" "x"))], [⟨first, other, .similarMoved⟩]⟩ s ∧
        ∀ t, ¬Worklist.Step .one s t) ∧
      ∀ s, Worklist.Run .one ⟨[(.root (.functionPair "f" "f" "x" "y"),
          .root (.functionPair "f" "g" "y" "x"))], [⟨first, other, .similarMoved⟩]⟩ s →
        (∀ t, ¬Worklist.Step .one s t) →
          ⟨first, other, .similarMoved⟩ ∈ s.links ∧ ⟨second, same, .exact⟩ ∈ s.links := by
  have hold := Entry.mem_preorder_self (.root (.functionPair "f" "f" "x" "y"))
  have hnew := Entry.mem_preorder_self (.root (.functionPair "f" "g" "y" "x"))
  refine ⟨hold, hnew, _, _, _, _, rfl, rfl, ?_, fun s hrun hend => ?_⟩
  · refine ⟨_, (worklist_confluent .one _ _ _ _ _ hold hnew).2.1, ?_⟩
    rintro _ ⟨hperm, -⟩
    exact absurd hperm.nil_eq (List.cons_ne_nil _ _).symm
  · obtain ⟨-, hends⟩ := (worklist_confluent .one _ _ _ _ _ hold hnew).2.2 s hrun hend
    refine ⟨(hends.mem_iff _).2 (Or.inl List.mem_cons_self), (hends.mem_iff _).2 (Or.inr ?_)⟩
    exact .child (@PairedBelow.byKey _ _ _ _ "function" _ _ ⟨.identifier "f", 0, rfl, rfl⟩)

end TreeDiff
