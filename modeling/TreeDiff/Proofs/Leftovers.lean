/-
# What the matching leaves over

An in-place stage does not leave two children free that fit, and no later step frees an entry
again. So below entries that are joined, nothing is ever left that could be joined in place.  The
candidates for a move are visited with the nearest to the roots first; whatever is joined later
lies at least as deep, so the parents of a moved pair are not joined with each other afterwards
either.  And a pair that is left over at the end was no candidate: its names differ, and so do its
texts.
-/
import TreeDiff.Proofs.Changes

namespace TreeDiff

/-! ## Joined entries are settled -/

namespace Links

/-- Whether no two free children of the entries of a link could still be joined in place. -/
def SettledAt (threshold : Binary64) (links : Links) (m : Link) : Prop :=
  ∀ o ∈ m.old.children, ∀ n ∈ m.new.children, links.freeOld o = true → links.freeNew n = true →
    ¬o.Fits threshold n

/-- Whether this is so for all links. -/
def Settled (threshold : Binary64) (links : Links) : Prop :=
  ∀ m ∈ links, links.SettledAt threshold m

variable {threshold : Binary64} {links more : Links} {m : Link}

lemma SettledAt.mono (hsub : links ⊆ more) (h : links.SettledAt threshold m) :
    more.SettledAt threshold m := fun o ho n hn hofree hnfree =>
  h o ho n hn (freeOld_of_subset hsub hofree) (freeNew_of_subset hsub hnfree)

/-- A stage settles the entries below which it links. -/
lemma settledAt_of_linkChildren
    (hsub : links ⊆ more) (hmade : linkChildren threshold links m.old m.new ⊆ more) :
    more.SettledAt threshold m := by
  intro o ho n hn hofree hnfree hfits
  obtain ⟨l, hl, hseq⟩ := exists_mem_linkChildren ho hn (freeOld_of_subset hsub hofree)
    (freeNew_of_subset hsub hnfree) hfits
  rcases hseq with hseq | hseq
  · exact freeOld_iff.1 hofree l (hmade hl) hseq
  · exact freeNew_iff.1 hnfree l (hmade hl) hseq

/-- The descent below a new link settles the link and all that it adds. -/
lemma Settled.linkBelow (hold : m.old.WellPlaced) (hnew : m.new.WellPlaced)
    (h : links.Settled threshold) :
    (linkBelow threshold m.old m.new (m :: links)).Settled threshold := by
  have hsub : m :: links ⊆ TreeDiff.linkBelow threshold m.old m.new (m :: links) := fun _ hl =>
    (mem_linkBelow hold hnew).2 (Or.inl hl)
  intro p hp
  rcases (mem_linkBelow hold hnew).1 hp with hp | hp
  · rcases List.mem_cons.1 hp with rfl | hp
    · exact settledAt_of_linkChildren hsub fun l hl =>
        (mem_linkBelow hold hnew).2 (Or.inr (.child hl))
    · exact (h p hp).mono fun l hl => hsub (List.mem_cons_of_mem m hl)
  · exact settledAt_of_linkChildren hsub fun l hl =>
      (mem_linkBelow hold hnew).2 (Or.inr (hp.next hl))

lemma settled_linkInPlace (threshold : Binary64) {old new : Entry} (hold : old.WellPlaced)
    (hnew : new.WellPlaced) : (linkInPlace threshold old new).Settled threshold := by
  have hnone : Settled threshold [] := fun _ hp => absurd hp List.not_mem_nil
  exact hnone.linkBelow (m := ⟨old, new, .exact⟩) hold hnew

lemma Settled.acceptMove {c : MoveCandidate} (hold : c.old.WellPlaced) (hnew : c.new.WellPlaced)
    (h : links.Settled threshold) : (acceptMove threshold links c).Settled threshold := by
  by_cases hfree : c.IsFree links
  · rw [acceptMove_of_isFree hfree]
    exact h.linkBelow (m := c.link) hold hnew
  · rwa [acceptMove_of_not_isFree hfree]

lemma Settled.foldl_acceptMove {cs : List MoveCandidate} (hcs : WellPlacedCandidates cs)
    (h : links.Settled threshold) :
    (cs.foldl (TreeDiff.acceptMove threshold) links).Settled threshold := by
  induction cs generalizing links with
  | nil => exact h
  | cons c rest ih =>
    obtain ⟨hold, hnew⟩ := hcs c List.mem_cons_self
    exact ih hcs.tail (h.acceptMove hold hnew)

/-- **Nothing that could be joined in place is left below joined entries.** -/
theorem settled_linkTrees (threshold : Binary64) {old new : Entry} (hold : old.WellPlaced)
    (hnew : new.WellPlaced) : (linkTrees threshold old new).Settled threshold :=
  (settled_linkInPlace threshold hold hnew).foldl_acceptMove
    (wellPlacedCandidates_moveCandidates threshold _ hold hnew)

end Links

/-! ## The nearest to the roots first -/

section

variable {threshold : Binary64} {links found : Links} {old new : Entry} {c : MoveCandidate}
  {cs : List MoveCandidate} {l : Link}

/-- What a visit adds does not lie nearer to the roots than the candidate. -/
lemma depth_le_of_mem_acceptMove (hold : c.old.WellPlaced) (hnew : c.new.WellPlaced)
    (hl : l ∈ acceptMove threshold links c) :
    l ∈ links ∨ c.depth ≤ l.old.depth ∧ c.depth ≤ l.new.depth := by
  rcases (mem_acceptMove hold hnew).1 hl with hl | ⟨-, rfl | hl⟩
  · exact Or.inl hl
  · exact Or.inr ⟨Nat.min_le_left _ _, Nat.min_le_right _ _⟩
  · have ho := hold.depth_le (Entry.mem_preorder_of_mem_descendants hl.old_mem)
    have hn := hnew.depth_le (Entry.mem_preorder_of_mem_descendants hl.new_mem)
    exact Or.inr ⟨Nat.le_trans (Nat.min_le_left _ _) ho, Nat.le_trans (Nat.min_le_right _ _) hn⟩

lemma depth_le_of_mem_foldl_acceptMove (hcs : WellPlacedCandidates cs) {depth : Nat}
    (hdepth : ∀ c ∈ cs, depth ≤ c.depth) (hl : l ∈ cs.foldl (acceptMove threshold) links) :
    l ∈ links ∨ depth ≤ l.old.depth ∧ depth ≤ l.new.depth := by
  induction cs generalizing links with
  | nil => exact Or.inl hl
  | cons c rest ih =>
    obtain ⟨hold, hnew⟩ := hcs c List.mem_cons_self
    have hc := hdepth c List.mem_cons_self
    rcases ih hcs.tail (fun d hd => hdepth d (List.mem_cons_of_mem c hd)) hl with hl | hl
    · rcases depth_le_of_mem_acceptMove hold hnew hl with hl | hl
      · exact Or.inl hl
      · exact Or.inr ⟨Nat.le_trans hc hl.1, Nat.le_trans hc hl.2⟩
    · exact Or.inr hl

/-- The links that the visits add are moves between parents that are never joined, or were made in
place.  The parents of a candidate that is joined were not joined before, since joined entries are
settled; and they are not joined later, since they lie nearer to the roots. -/
lemma of_mem_foldl_acceptMove (hold : old.WellPlaced) (hnew : new.WellPlaced)
    (hcs : ∀ c ∈ cs, c.Meets threshold found old new)
    (hsorted : cs.Pairwise fun c d => lexNotAfter c.key d.key = true)
    (hrun : Links.Run threshold old new links) (hsettled : links.Settled threshold)
    (hl : l ∈ cs.foldl (acceptMove threshold) links) :
    l ∈ links ∨ (l.kind = .exact ∨ l.kind = .similar) ∨
      ∀ m ∈ cs.foldl (acceptMove threshold) links, l.old ∈ m.old.children →
        l.new ∉ m.new.children := by
  have hwell := wellPlacedCandidates_of_meets hold hnew hcs
  induction cs generalizing links with
  | nil => exact Or.inl hl
  | cons c rest ih =>
    have hend := hrun.foldl_acceptMove hold hnew hcs
    obtain ⟨hcold, hcnew⟩ := hwell c List.mem_cons_self
    have hc := hcs c List.mem_cons_self
    have hdepth : ∀ d ∈ c :: rest, c.depth ≤ d.depth := by
      rw [List.forall_mem_cons]
      exact ⟨Nat.le_refl _, fun d hd =>
        MoveCandidate.depth_le_of_key ((List.pairwise_cons.1 hsorted).1 d hd)⟩
    rcases ih (fun d hd => hcs d (List.mem_cons_of_mem c hd)) (List.pairwise_cons.1 hsorted).2
      (hrun.acceptMove hold hnew hc) (hsettled.acceptMove hcold hcnew) hl
      hwell.tail with hl | hl
    · rcases (mem_acceptMove hcold hcnew).1 hl with hl | ⟨hfree, rfl | hl⟩
      · exact Or.inl hl
      · refine Or.inr (Or.inr fun m hm ho hn => ?_)
        -- parents joined before are settled; parents joined later would lie too deep
        rcases depth_le_of_mem_foldl_acceptMove hwell hdepth hm with hm' | hm'
        · exact hsettled m hm' c.old ho c.new hn hfree.1 hfree.2 hc.fits
        · have hodepth := hold.depth_eq m.old (hend.placed m hm).1 c.old ho
          have hndepth := hnew.depth_eq m.new (hend.placed m hm).2 c.new hn
          simp only [MoveCandidate.depth] at hm'
          omega
      · exact Or.inr (Or.inl hl.kind_eq)
    · exact Or.inr hl

/-- A link between children of joined entries was made in place. -/
lemma kind_of_mem_children (hold : old.WellPlaced) (hnew : new.WellPlaced)
    (hl : l ∈ linkTrees threshold old new) {m : Link} (hm : m ∈ linkTrees threshold old new)
    (ho : l.old ∈ m.old.children) (hn : l.new ∈ m.new.children) :
    l.kind = .exact ∨ l.kind = .similar := by
  rcases of_mem_foldl_acceptMove hold hnew (fun _ hc => mem_moveCandidates.1 hc)
    (pairwise_moveCandidates _ _ _ _) (Links.Run.linkInPlace hold hnew threshold)
    (Links.settled_linkInPlace threshold hold hnew) hl with hl | hkind | hparents
  · rcases (mem_linkInPlace hold hnew).1 hl with rfl | hl
    · exact Or.inl rfl
    · exact hl.kind_eq
  · exact hkind
  · exact absurd hn (hparents m hm ho)

/-- A pair that is left over was no candidate for a move. -/
lemma not_fits_of_free (hold : old.WellPlaced) (hnew : new.WellPlaced) {o n : Entry}
    (ho : o ∈ old.preorder) (hn : n ∈ new.preorder)
    (hofree : (linkTrees threshold old new).freeOld o = true)
    (hnfree : (linkTrees threshold old new).freeNew n = true)
    (hoid : o.isIdentified = true) (hnid : n.isIdentified = true) : ¬o.Fits threshold n := by
  intro hfits
  have hwell := wellPlacedCandidates_moveCandidates threshold (linkInPlace threshold old new) hold
    hnew
  have hsub : linkInPlace threshold old new ⊆ linkTrees threshold old new :=
    subset_foldl_acceptMove hwell
  obtain ⟨c, hc, rfl, rfl⟩ := exists_mem_moveCandidates ho hn
    (Links.freeOld_of_subset hsub hofree) (Links.freeNew_of_subset hsub hnfree) hoid hnid hfits
  exact not_isFree_foldl_acceptMove hwell hc ⟨hofree, hnfree⟩

end

/-! ## Only real moves -/

/-- **The parents of a moved pair are not joined with each other.**  Hence what stays right below an
entry that was renamed or moved itself is linked in place. -/
theorem not_joinsParents_of_moved (threshold : Binary64) (old new : Outline) {l : Link}
    (hl : l ∈ linkTrees threshold (.root old) (.root new))
    (hkind : l.kind = .moved ∨ l.kind = .similarMoved) :
    ¬(linkTrees threshold (.root old) (.root new)).JoinsParents l ∧
      ∀ m ∈ linkTrees threshold (.root old) (.root new), l.old ∈ m.old.children →
        l.new ∉ m.new.children := by
  have hold := Entry.wellPlaced_root old
  have hnew := Entry.wellPlaced_root new
  have hrun := Links.Run.linkTrees hold hnew threshold
  have hstay : ∀ m ∈ linkTrees threshold (.root old) (.root new), l.old ∈ m.old.children →
      l.new ∉ m.new.children := by
    intro m hm ho hn
    rcases kind_of_mem_children hold hnew hl hm ho hn with h | h <;> simp [h] at hkind
  refine ⟨?_, hstay⟩
  -- a number names one entry of a tree, so joined parents are the ones whose children these are
  rintro ⟨p, q, hp, hq, m, hm, rfl, rfl⟩
  have hroots : l ≠ ⟨.root old, .root new, .exact⟩ := by
    rintro rfl
    simp at hkind
  have hfree : l.old ∈ (Entry.root old).descendants ∧ l.new ∈ (Entry.root new).descendants := by
    refine ⟨(Entry.mem_preorder.1 (hrun.placed l hl).1).resolve_left fun h => hroots ?_,
      (Entry.mem_preorder.1 (hrun.placed l hl).2).resolve_left fun h => hroots ?_⟩
    · exact hrun.oneToOne.eq_of_old hl hrun.roots_joined (congrArg Entry.seq h)
    · exact hrun.oneToOne.eq_of_new hl hrun.roots_joined (congrArg Entry.seq h)
  exact hstay m hm ((hold.mem_children_iff (hrun.placed m hm).1 hfree.1).2 hp)
    ((hnew.mem_children_iff (hrun.placed m hm).2 hfree.2).2 hq)

/-- A function that goes over to another class is moved on its own. -/
theorem exists_moved_beforeMove_afterMove :
    ∃ l ∈ linkTrees .one (.root .beforeMove) (.root .afterMove), l.kind = .moved ∧
      ¬(linkTrees .one (.root .beforeMove) (.root .afterMove)).JoinsParents l := by
  have hany : ((linkTrees .one (.root .beforeMove) (.root .afterMove)).any fun l =>
      l.kind = .moved) = true := by decide +kernel
  obtain ⟨l, hl, hkind⟩ := List.any_eq_true.1 hany
  have hkind : l.kind = .moved := by simpa using hkind
  exact ⟨l, hl, hkind, (not_joinsParents_of_moved .one .beforeMove .afterMove hl (Or.inl hkind)).1⟩

/-! ## Nothing that fits is left over -/

/-- **Nothing that fits is left over.**  Free entries of one type with identifiers have different
ones and are not similar, wherever they are; free children of joined entries without identifiers
differ in type or in ordinal; and no removal is reported beside an addition of the same type and
name. -/
theorem nothing_left_over (d : Differ) (fullText : Bool) (old new : Outline) :
    (∀ o ∈ (Entry.root old).preorder, ∀ n ∈ (Entry.root new).preorder,
      (linkTrees d.threshold (.root old) (.root new)).freeOld o = true →
      (linkTrees d.threshold (.root old) (.root new)).freeNew n = true →
      o.type = n.type → o.isIdentified = true → n.isIdentified = true →
      o.identifier ≠ n.identifier ∧ reaches d.threshold (o.similarity d.threshold n) = false) ∧
    (∀ m ∈ linkTrees d.threshold (.root old) (.root new),
      ∀ o ∈ m.old.children, ∀ n ∈ m.new.children,
      (linkTrees d.threshold (.root old) (.root new)).freeOld o = true →
      (linkTrees d.threshold (.root old) (.root new)).freeNew n = true →
      o.type = n.type → o.identifier = none → n.identifier = none → o.ordinal ≠ n.ordinal) ∧
    ∀ a ∈ (d.diffOutlines fullText old new).changes,
      ∀ b ∈ (d.diffOutlines fullText old new).changes,
      a.kind = .remove → b.kind = .add → a.nodeType = b.nodeType →
      a.oldIdentity = b.newIdentity → a.oldIdentity = none := by
  have hold := Entry.wellPlaced_root old
  have hnew := Entry.wellPlaced_root new
  have hsound := (Links.Run.linkTrees hold hnew d.threshold).sound
  have hanywhere : ∀ o ∈ (Entry.root old).preorder, ∀ n ∈ (Entry.root new).preorder,
      (linkTrees d.threshold (.root old) (.root new)).freeOld o = true →
      (linkTrees d.threshold (.root old) (.root new)).freeNew n = true →
      o.type = n.type → o.isIdentified = true → n.isIdentified = true →
      o.identifier ≠ n.identifier ∧ reaches d.threshold (o.similarity d.threshold n) = false := by
    intro o ho n hn hofree hnfree htype hoid hnid
    have hfits := not_fits_of_free hold hnew ho hn hofree hnfree hoid hnid
    refine ⟨fun hname => hfits ⟨htype, Or.inl (Entry.key_eq_of_identifier_eq hoid hname)⟩, ?_⟩
    rw [Bool.eq_false_iff]
    exact fun hreaches => hfits ⟨htype, Or.inr ⟨hoid, hnid, hreaches⟩⟩
  refine ⟨hanywhere, ?_, ?_⟩
  · intro m hm o ho n hn hofree hnfree htype hoid hnid hordinal
    have hkey : o.key = n.key := Entry.key_eq_iff.2 ⟨hoid.trans hnid.symm, fun _ => hordinal⟩
    exact Links.settled_linkTrees d.threshold hold hnew m hm o ho n hn hofree hnfree
      ⟨htype, Or.inl hkey⟩
  · intro a ha b hb hremove hadd htype hname
    rw [Differ.mem_diffOutlines] at ha hb
    obtain ⟨o, ho, hofree, rfl⟩ := exists_of_remove_mem_classify hold hsound ha hremove
    obtain ⟨n, hn, hnfree, rfl⟩ := exists_of_add_mem_classify hold hsound hb hadd
    by_contra hsome
    have hoid : o.isIdentified = true := Option.isSome_iff_ne_none.2 hsome
    have hnid : n.isIdentified = true := by
      rw [Entry.isIdentified, ← show o.identifier = n.identifier from hname]
      exact hoid
    exact (hanywhere o ho n hn hofree hnfree htype hoid hnid).1 hname

/-- A function and two statements, the first of which has a name. -/
def Outline.beforeRewrite : Outline :=
  .named "module" "m" [.named "function" "f" [], .named "statement" "x" [],
    ⟨"statement", [], "y", ⟨0, 0⟩, ⟨0, 0⟩, []⟩]

/-- Another function and a statement without a name. -/
def Outline.afterRewrite : Outline :=
  .named "module" "m" [.named "function" "g" [], ⟨"statement", [], "z", ⟨0, 0⟩, ⟨0, 0⟩, []⟩]

/-- The functions have nothing in common, and the unnamed statements differ in their ordinals. -/
theorem left_over_beforeRewrite_afterRewrite :
    (∃ o ∈ (Entry.root .beforeRewrite).preorder, ∃ n ∈ (Entry.root .afterRewrite).preorder,
      o.type = "function" ∧ n.type = "function" ∧ reaches .one (o.similarity .one n) = false) ∧
    (∃ o ∈ (Entry.root .beforeRewrite).children, ∃ n ∈ (Entry.root .afterRewrite).children,
      o.type = "statement" ∧ n.type = "statement" ∧ o.ordinal ≠ n.ordinal) ∧
    ∃ a ∈ (Differ.diffOutlines ⟨⟨none, []⟩, .one, 100⟩ false .beforeRewrite .afterRewrite).changes,
      ∃ b ∈ (Differ.diffOutlines ⟨⟨none, []⟩, .one, 100⟩ false .beforeRewrite
          .afterRewrite).changes,
        a.nodeType = "function" ∧ b.nodeType = "function" ∧ a.oldIdentity ≠ b.newIdentity := by
  obtain ⟨hanywhere, hbelow, hchanges⟩ :=
    nothing_left_over ⟨⟨none, []⟩, .one, 100⟩ false .beforeRewrite .afterRewrite
  refine ⟨?_, ?_, ?_⟩
  · have hold : ((Entry.root .beforeRewrite).preorder.any fun o =>
        (linkTrees .one (.root .beforeRewrite) (.root .afterRewrite)).freeOld o &&
          o.type = "function" && o.isIdentified) = true := by decide +kernel
    have hnew : ((Entry.root .afterRewrite).preorder.any fun n =>
        (linkTrees .one (.root .beforeRewrite) (.root .afterRewrite)).freeNew n &&
          n.type = "function" && n.isIdentified) = true := by decide +kernel
    simp only [List.any_eq_true, Bool.and_eq_true, decide_eq_true_eq, and_assoc] at hold hnew
    obtain ⟨o, ho, hofree, hotype, hoid⟩ := hold
    obtain ⟨n, hn, hnfree, hntype, hnid⟩ := hnew
    exact ⟨o, ho, n, hn, hotype, hntype,
      (hanywhere o ho n hn hofree hnfree (hotype.trans hntype.symm) hoid hnid).2⟩
  · have hold : ((Entry.root .beforeRewrite).children.any fun o =>
        (linkTrees .one (.root .beforeRewrite) (.root .afterRewrite)).freeOld o &&
          o.type = "statement" && o.identifier = none) = true := by decide +kernel
    have hnew : ((Entry.root .afterRewrite).children.any fun n =>
        (linkTrees .one (.root .beforeRewrite) (.root .afterRewrite)).freeNew n &&
          n.type = "statement" && n.identifier = none) = true := by decide +kernel
    simp only [List.any_eq_true, Bool.and_eq_true, decide_eq_true_eq, and_assoc] at hold hnew
    obtain ⟨o, ho, hofree, hotype, hoid⟩ := hold
    obtain ⟨n, hn, hnfree, hntype, hnid⟩ := hnew
    have hroots := (Links.Run.linkTrees (Entry.wellPlaced_root .beforeRewrite)
      (Entry.wellPlaced_root .afterRewrite) .one).roots_joined
    exact ⟨o, ho, n, hn, hotype, hntype,
      hbelow _ hroots o ho n hn hofree hnfree (hotype.trans hntype.symm) hoid hnid⟩
  · have hremove : ((classify (some 100) (linkTrees .one (.root .beforeRewrite)
        (.root .afterRewrite)) (.root .beforeRewrite) (.root .afterRewrite)).any fun a =>
          a.kind = .remove && a.nodeType = "function" && a.oldIdentity = some "f") = true := by
      decide +kernel
    have hadd : ((classify (some 100) (linkTrees .one (.root .beforeRewrite)
        (.root .afterRewrite)) (.root .beforeRewrite) (.root .afterRewrite)).any fun b =>
          b.kind = .add && b.nodeType = "function") = true := by decide +kernel
    simp only [List.any_eq_true, Bool.and_eq_true, decide_eq_true_eq, and_assoc] at hremove hadd
    obtain ⟨a, ha, hakind, hatype, haname⟩ := hremove
    obtain ⟨b, hb, hbkind, hbtype⟩ := hadd
    refine ⟨a, Differ.mem_diffOutlines.2 ha, b, Differ.mem_diffOutlines.2 hb, hatype, hbtype,
      fun hname => ?_⟩
    have hnone := hchanges a (Differ.mem_diffOutlines.2 ha) b (Differ.mem_diffOutlines.2 hb) hakind
      hbkind (hatype.trans hbtype.symm) hname
    simp [haname] at hnone

end TreeDiff
