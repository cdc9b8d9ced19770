/-
# Visiting the candidates in another order

Two candidates that are both free when it is their turn are both joined in either order if joining
one leaves the other free, and then the links are the same afterwards.  If joining one takes an
entry of the other, the links differ to the end: the one that is visited first is joined as a move,
the other one never is.  So a round of visits in two orders that agree up to ties leaves the same
links exactly if no tie is disputed.
-/
import TreeDiff.Proofs.Ties

namespace TreeDiff

section

variable {threshold : Binary64} {links more found : Links} {old new : Entry} {c d : MoveCandidate}
  {l p m : Link}

/-! ## States with the same links -/

lemma MoveCandidate.isFree_congr (h : ∀ l, l ∈ links ↔ l ∈ more) :
    c.IsFree links ↔ c.IsFree more := by
  rw [IsFree, IsFree, Links.freeOld_congr h, Links.freeNew_congr h]

lemma mem_cons_congr (h : ∀ l, l ∈ links ↔ l ∈ more) (m l : Link) :
    l ∈ m :: links ↔ l ∈ m :: more := by
  rw [List.mem_cons, List.mem_cons, h]

lemma acceptMove_congr (hold : c.old.WellPlaced) (hnew : c.new.WellPlaced)
    (h : ∀ l, l ∈ links ↔ l ∈ more) (l : Link) :
    l ∈ acceptMove threshold links c ↔ l ∈ acceptMove threshold more c := by
  have hcons := mem_cons_congr h c.link
  rw [mem_acceptMove hold hnew, mem_acceptMove hold hnew, h, MoveCandidate.isFree_congr h]
  refine or_congr Iff.rfl (and_congr_right fun _ => or_congr Iff.rfl ⟨fun hl => ?_, fun hl => ?_⟩)
  · exact hl.congr hcons
  · exact hl.congr fun l => (hcons l).symm

/-! ## Two candidates -/

/-- Whether a visit to one of two free candidates leaves the other one free. -/
def MoveCandidate.Undisputed (threshold : Binary64) (links : Links) (c d : MoveCandidate) : Prop :=
  c.IsFree links → d.IsFree links →
    d.IsFree (acceptMove threshold links c) ∧ c.IsFree (acceptMove threshold links d)

instance (threshold : Binary64) (links : Links) (c d : MoveCandidate) :
    Decidable (c.Undisputed threshold links d) :=
  inferInstanceAs (Decidable (_ → _ → _ ∧ _))

namespace MoveCandidate.Meets

variable (hold : old.WellPlaced) (hnew : new.WellPlaced)
  (hc : c.Meets threshold found old new) (hd : d.Meets threshold found old new)

include hold hnew hc hd

/-- What is joined below two candidates that leave each other free has nothing in common: the trees
of their entries are nested or disjoint, and if they are nested, the descent below the outer one
does not get past the inner one. -/
lemma apart_of_isFree (hcfree : c.IsFree links) (hdfree : d.IsFree links)
    (hcd : d.IsFree (acceptMove threshold links c)) (hdc : c.IsFree (acceptMove threshold links d))
    (hp : InPlace threshold (c.link :: links) c.old c.new p)
    (hm : InPlace threshold (d.link :: links) d.old d.new m) : p.Apart m := by
  have hco := hold.of_mem hc.old_mem
  have hcn := hnew.of_mem hc.new_mem
  have hdo := hold.of_mem hd.old_mem
  have hdn := hnew.of_mem hd.new_mem
  have hspared : ∀ {q}, q = c.link ∨ InPlace threshold (c.link :: links) c.old c.new q →
      q.old.seq ≠ d.old.seq ∧ q.new.seq ≠ d.new.seq := by
    intro q hq
    have hmem := (mem_acceptMove hco hcn).2 (Or.inr ⟨hcfree, hq⟩)
    exact ⟨Links.freeOld_iff.1 hcd.1 q hmem, Links.freeNew_iff.1 hcd.2 q hmem⟩
  have hspared' : ∀ {q}, q = d.link ∨ InPlace threshold (d.link :: links) d.old d.new q →
      q.old.seq ≠ c.old.seq ∧ q.new.seq ≠ c.new.seq := by
    intro q hq
    have hmem := (mem_acceptMove hdo hdn).2 (Or.inr ⟨hdfree, hq⟩)
    exact ⟨Links.freeOld_iff.1 hdc.1 q hmem, Links.freeNew_iff.1 hdc.2 q hmem⟩
  constructor
  · intro hseq
    rcases hp.meet_of_old_seq hold hc.old_mem hd.old_mem hm hseq with
      hsame | ⟨q, hq, hqd⟩ | ⟨q, hq, hqc⟩
    · exact (hspared (Or.inl rfl)).1 (congrArg Entry.seq hsame)
    · exact (hspared (Or.inr hq)).1 (congrArg Entry.seq hqd)
    · exact (hspared' (Or.inr hq)).1 (congrArg Entry.seq hqc)
  · intro hseq
    rcases hp.meet_of_new_seq hnew hc.new_mem hd.new_mem hco hdo hm hseq with
      hsame | ⟨q, hq, hqd⟩ | ⟨q, hq, hqc⟩
    · exact (hspared (Or.inl rfl)).2 (congrArg Entry.seq hsame)
    · exact (hspared (Or.inr hq)).2 (congrArg Entry.seq hqd)
    · exact (hspared' (Or.inr hq)).2 (congrArg Entry.seq hqc)

/-- What is joined below the second candidate does not depend on whether the first one was visited.
-/
lemma inPlace_acceptMove_iff (hcfree : c.IsFree links) (hdfree : d.IsFree links)
    (hcd : d.IsFree (acceptMove threshold links c))
    (hdc : c.IsFree (acceptMove threshold links d)) :
    InPlace threshold (d.link :: acceptMove threshold links c) d.old d.new l ↔
      InPlace threshold (d.link :: links) d.old d.new l := by
  have hco := hold.of_mem hc.old_mem
  have hcn := hnew.of_mem hc.new_mem
  have hdo := hold.of_mem hd.old_mem
  have hdn := hnew.of_mem hd.new_mem
  have hapart : ∀ {m}, InPlace threshold (d.link :: links) d.old d.new m →
      ∀ q ∈ d.link :: acceptMove threshold links c, q.Apart m := by
    intro m hm q hq
    have hfree : ∀ q ∈ d.link :: links, q.Apart m := fun q hq =>
      ⟨Links.freeOld_iff.1 hm.free.1 q hq, Links.freeNew_iff.1 hm.free.2 q hq⟩
    rcases List.mem_cons.1 hq with rfl | hq
    · exact hfree _ List.mem_cons_self
    · rcases (mem_acceptMove hco hcn).1 hq with hq | ⟨-, rfl | hq⟩
      · exact hfree q (List.mem_cons_of_mem _ hq)
      · have hmem := (mem_acceptMove hdo hdn).2 (Or.inr ⟨hdfree, Or.inr hm⟩)
        exact ⟨(Links.freeOld_iff.1 hdc.1 m hmem).symm, (Links.freeNew_iff.1 hdc.2 m hmem).symm⟩
      · exact hc.apart_of_isFree hold hnew hd hcfree hdfree hcd hdc hq hm
  refine InPlace.of_subset_iff hdo hdn (List.cons_subset_cons _ (subset_acceptMove hco hcn))
    fun m hm => ⟨Links.freeOld_iff.2 fun q hq => ?_, Links.freeNew_iff.2 fun q hq => ?_⟩
  · exact (hapart hm q hq).1
  · exact (hapart hm q hq).2

/-- **Visits to candidates without dispute commute.** -/
theorem acceptMove_comm (h : c.Undisputed threshold links d) (l : Link) :
    l ∈ acceptMove threshold (acceptMove threshold links c) d ↔
      l ∈ acceptMove threshold (acceptMove threshold links d) c := by
  have hco := hold.of_mem hc.old_mem
  have hcn := hnew.of_mem hc.new_mem
  have hdo := hold.of_mem hd.old_mem
  have hdn := hnew.of_mem hd.new_mem
  -- a candidate that is not free now is not free after the other visit either
  by_cases hcfree : c.IsFree links
  · by_cases hdfree : d.IsFree links
    · obtain ⟨hcd, hdc⟩ := h hcfree hdfree
      rw [mem_acceptMove hdo hdn, mem_acceptMove hco hcn, mem_acceptMove hco hcn,
        mem_acceptMove hdo hdn, hc.inPlace_acceptMove_iff hold hnew hd hcfree hdfree hcd hdc,
        hd.inPlace_acceptMove_iff hold hnew hc hdfree hcfree hdc hcd]
      tauto
    · have hdfree' : ¬d.IsFree (acceptMove threshold links c) := fun hfree =>
        hdfree (hfree.of_subset (subset_acceptMove hco hcn))
      rw [acceptMove_of_not_isFree hdfree', acceptMove_of_not_isFree hdfree]
  · have hcfree' : ¬c.IsFree (acceptMove threshold links d) := fun hfree =>
      hcfree (hfree.of_subset (subset_acceptMove hdo hdn))
    rw [acceptMove_of_not_isFree hcfree, acceptMove_of_not_isFree hcfree']

omit hd

/-- A candidate that is joined in the end was left free by every visit before it: what a visit adds
below a candidate is no move. -/
lemma isFree_acceptMove_of_mem (hone : more.OneToOne) (hsub : acceptMove threshold links c ⊆ more)
    (hmem : d.link ∈ more) (hdfree : d.IsFree links) (hne : c.old.seq ≠ d.old.seq) :
    d.IsFree (acceptMove threshold links c) := by
  have hnot : d.link ∉ acceptMove threshold links c := by
    intro hin
    rcases (mem_acceptMove (hold.of_mem hc.old_mem) (hnew.of_mem hc.new_mem)).1 hin with
      hin | ⟨-, heq | hin⟩
    · exact MoveCandidate.not_isFree_of_link_mem hin hdfree
    · exact hne (congrArg (fun l => l.old.seq) heq).symm
    · rcases hin.kind_eq with hkind | hkind <;> rcases d.link_kind with hmove | hmove <;>
        simp [hkind] at hmove
  refine ⟨Links.freeOld_iff.2 fun q hq hseq => hnot ?_,
    Links.freeNew_iff.2 fun q hq hseq => hnot ?_⟩
  · exact hone.eq_of_old (hsub hq) hmem hseq ▸ hq
  · exact hone.eq_of_new (hsub hq) hmem hseq ▸ hq

end MoveCandidate.Meets

end

/-! ## Two orders -/

/-- Whether no tie is disputed when candidates are visited: neighbours that stand at the same place
in another order, the other way round, leave each other free when it is their turn. -/
def NoDispute (threshold : Binary64) (links : Links) (cs ds : List MoveCandidate) : Prop :=
  ∀ pre c d post pre' post', cs = pre ++ c :: d :: post → ds = pre' ++ d :: c :: post' →
    pre.length = pre'.length →
      c.Undisputed threshold (pre.foldl (acceptMove threshold) links) d

section

variable {threshold : Binary64} {links more found : Links} {old new : Entry} {a b : MoveCandidate}
  {cs ds : List MoveCandidate}

lemma noDispute_cons (hnodup : (a :: cs).Nodup) : NoDispute threshold links (a :: cs) (a :: ds) ↔
    NoDispute threshold (acceptMove threshold links a) cs ds := by
  constructor
  · rintro h pre c d post pre' post' rfl rfl hlen
    exact h (a :: pre) c d post (a :: pre') post' rfl rfl (congrArg Nat.succ hlen)
  · intro h pre c d post pre' post' hcs hds hlen
    cases pre with
    | nil =>
      obtain rfl := List.length_eq_zero_iff.1 hlen.symm
      obtain ⟨-, rfl⟩ := List.cons.inj hcs
      obtain ⟨rfl, -⟩ := List.cons.inj hds
      exact absurd List.mem_cons_self (List.nodup_cons.1 hnodup).1
    | cons e pre =>
      cases pre' with
      | nil => simp at hlen
      | cons f pre' =>
        simp only [List.cons_append, List.cons.injEq] at hcs hds
        obtain ⟨rfl, hcs⟩ := hcs
        exact h pre c d post pre' post' hcs hds.2 (Nat.succ.inj hlen)

lemma noDispute_tie (hnodup : (a :: b :: cs).Nodup) :
    NoDispute threshold links (a :: b :: cs) (b :: a :: ds) ↔ a.Undisputed threshold links b ∧
      NoDispute threshold (acceptMove threshold (acceptMove threshold links a) b) cs ds := by
  constructor
  · intro h
    refine ⟨h [] a b cs [] ds rfl rfl rfl, ?_⟩
    rintro pre c d post pre' post' rfl rfl hlen
    exact h (a :: b :: pre) c d post (b :: a :: pre') post' rfl rfl (by simp [hlen])
  · rintro ⟨hab, h⟩ pre c d post pre' post' hcs hds hlen
    rcases pre with - | ⟨e, - | ⟨e', pre⟩⟩ <;> rcases pre' with - | ⟨f, - | ⟨f', pre'⟩⟩ <;>
      simp only [List.length_cons, List.length_nil, Nat.succ.injEq] at hlen <;>
      simp only [List.nil_append, List.cons_append, List.cons.injEq] at hcs hds <;>
      try omega
    · obtain ⟨rfl, rfl, rfl⟩ := hcs
      exact hab
    · -- the first of one order would be the third of the other
      obtain ⟨rfl, rfl, rfl⟩ := hcs
      obtain ⟨rfl, rfl, rfl⟩ := hds
      simp at hnodup
    · obtain ⟨rfl, rfl, hcs⟩ := hcs
      exact h pre c d post pre' post' hcs hds.2.2 (by omega)

lemma UpToTies.perm (h : UpToTies cs ds) : cs.Perm ds := by
  induction h with
  | nil => exact List.Perm.refl _
  | cons c _ ih => exact ih.cons c
  | @tie c d _ _ _ _ _ ih => exact (List.Perm.swap d c _).trans ((ih.cons c).cons d)

lemma link_mem_foldl_acceptMove (threshold : Binary64) (hcs : WellPlacedCandidates (a :: cs))
    (hfree : a.IsFree links) : a.link ∈ (a :: cs).foldl (acceptMove threshold) links := by
  obtain ⟨hold, hnew⟩ := hcs a List.mem_cons_self
  exact subset_foldl_acceptMove hcs.tail ((mem_acceptMove hold hnew).2 (Or.inr ⟨hfree, Or.inl rfl⟩))

/-- If visits in two orders end with the same links, then the two candidates that come first were
not in dispute: both are joined as moves in the end. -/
lemma undisputed_of_mem_iff (hold : old.WellPlaced) (hnew : new.WellPlaced)
    (hmeets : ∀ c ∈ a :: b :: cs, c.Meets threshold found old new)
    (hperm : (a :: b :: cs).Perm (b :: a :: ds)) (hne : a.old.seq ≠ b.old.seq)
    (hrun : Links.Run threshold old new links) (hsame : ∀ l, l ∈ links ↔ l ∈ more)
    (hend : ∀ l, l ∈ (a :: b :: cs).foldl (acceptMove threshold) links ↔
      l ∈ (b :: a :: ds).foldl (acceptMove threshold) more) :
    a.Undisputed threshold links b := by
  intro hafree hbfree
  have ha := hmeets a List.mem_cons_self
  have hb := hmeets b (List.mem_cons_of_mem a List.mem_cons_self)
  have hwell := wellPlacedCandidates_of_meets hold hnew hmeets
  have hwell' : WellPlacedCandidates (b :: a :: ds) := fun c hc => hwell c (hperm.symm.subset hc)
  have hone := (hrun.foldl_acceptMove hold hnew hmeets).oneToOne
  have hamem := link_mem_foldl_acceptMove threshold hwell hafree
  have hbmem := (hend _).2 (link_mem_foldl_acceptMove threshold hwell'
    ((MoveCandidate.isFree_congr hsame).1 hbfree))
  constructor
  · exact ha.isFree_acceptMove_of_mem hold hnew hone (subset_foldl_acceptMove hwell.tail) hbmem
      hbfree hne
  · refine hb.isFree_acceptMove_of_mem hold hnew hone (fun l hl => (hend l).2 ?_) hamem hafree
      hne.symm
    exact subset_foldl_acceptMove hwell'.tail
      ((acceptMove_congr (hold.of_mem hb.old_mem) (hnew.of_mem hb.new_mem) hsame l).1 hl)

/-- **Two orders that agree up to ties leave the same links exactly if no tie is disputed.** -/
theorem mem_foldl_acceptMove_iff (hold : old.WellPlaced) (hnew : new.WellPlaced)
    (hties : UpToTies cs ds) (hnodup : cs.Nodup)
    (hmeets : ∀ c ∈ cs, c.Meets threshold found old new)
    (hrun : Links.Run threshold old new links) (hrun' : Links.Run threshold old new more)
    (hsame : ∀ l, l ∈ links ↔ l ∈ more) :
    (∀ l, l ∈ cs.foldl (acceptMove threshold) links ↔ l ∈ ds.foldl (acceptMove threshold) more) ↔
      NoDispute threshold links cs ds := by
  induction hties generalizing links more with
  | nil => exact iff_of_true hsame fun pre c d post _ _ hcs => by simp at hcs
  | @cons c cs ds h ih =>
    rw [List.forall_mem_cons] at hmeets
    rw [noDispute_cons hnodup, ← ih hnodup.of_cons hmeets.2 (hrun.acceptMove hold hnew hmeets.1)
      (hrun'.acceptMove hold hnew hmeets.1)
      (acceptMove_congr (hold.of_mem hmeets.1.old_mem) (hnew.of_mem hmeets.1.new_mem) hsame)]
    rfl
  | @tie a b hkey hne cs ds h ih =>
    have hmeets' := hmeets
    rw [List.forall_mem_cons, List.forall_mem_cons] at hmeets'
    obtain ⟨ha, hb, hrest⟩ := hmeets'
    have hao := hold.of_mem ha.old_mem
    have han := hnew.of_mem ha.new_mem
    have hbo := hold.of_mem hb.old_mem
    have hbn := hnew.of_mem hb.new_mem
    have hcross := ha.crosswise hold hnew hb hkey hne
    -- without dispute the two visits commute, and the rest starts from the same links
    have hnext : a.Undisputed threshold links b →
        ((∀ l, l ∈ (a :: b :: cs).foldl (acceptMove threshold) links ↔
          l ∈ (b :: a :: ds).foldl (acceptMove threshold) more) ↔
        NoDispute threshold (acceptMove threshold (acceptMove threshold links a) b) cs ds) :=
      fun hab => ih hnodup.of_cons.of_cons hrest
        ((hrun.acceptMove hold hnew ha).acceptMove hold hnew hb)
        ((hrun'.acceptMove hold hnew hb).acceptMove hold hnew ha) fun l =>
          (ha.acceptMove_comm hold hnew hb hab l).trans
            (acceptMove_congr hao han (acceptMove_congr hbo hbn hsame) l)
    rw [noDispute_tie hnodup]
    refine ⟨fun hend => ?_, fun h => (hnext h.1).2 h.2⟩
    have hab := undisputed_of_mem_iff hold hnew hmeets (UpToTies.tie hkey hne h).perm (by omega)
      hrun hsame hend
    exact ⟨hab, (hnext hab).1 hend⟩

end

end TreeDiff
