/-
# Sequences of links that are sound

The matching only ever adds links, one after the other.  Each link is added by one of four loops;
what they have in common is that both entries are free at that moment, and that the kind of the link
tells why they belong together.  The relation `Run` says just this of a sequence of links.  It is a
step lemma for each loop that it keeps to the relation, and an induction over the relation that
every sequence is sound, so that no entry is ever joined anew.
-/
import TreeDiff.Proofs.Moves

namespace TreeDiff

/-! ## What a link stands for -/

/-- What the kind of a link says of the two entries that it joins, when `links` are there. -/
def Link.Meaning (threshold : Binary64) (links : Links) (l : Link) : Prop :=
  match l.kind with
  | .exact => links.JoinsParents l ∧ l.old.identifier = l.new.identifier ∧
      (l.old.identifier = none → l.old.ordinal = l.new.ordinal)
  | .similar => links.JoinsParents l ∧ l.old.IsRenaming threshold l.new
  | .moved => ∃ name, l.old.identifier = some name ∧ l.new.identifier = some name
  | .similarMoved => l.old.IsRenaming threshold l.new

/-- A link between entries of one type that belong together in the way its kind says. -/
structure Link.Justified (threshold : Binary64) (links : Links) (l : Link) : Prop where
  type_eq : l.old.type = l.new.type
  meaning : l.Meaning threshold links

section

variable {threshold : Binary64} {links more : Links} {old new : Entry} {l m : Link}

lemma Links.JoinsParents.mono (hsub : links ⊆ more) (h : links.JoinsParents l) :
    more.JoinsParents l := by
  obtain ⟨p, q, hp, hq, m, hm, hmp, hmq⟩ := h
  exact ⟨p, q, hp, hq, m, hsub hm, hmp, hmq⟩

/-- A link stays justified when more links are added. -/
lemma Link.Justified.mono (hsub : links ⊆ more) (h : l.Justified threshold links) :
    l.Justified threshold more := by
  obtain ⟨htype, hmeaning⟩ := h
  refine ⟨htype, ?_⟩
  rw [Meaning] at hmeaning ⊢
  cases hkind : l.kind with
  | exact =>
    rw [hkind] at hmeaning
    exact ⟨hmeaning.1.mono hsub, hmeaning.2⟩
  | similar =>
    rw [hkind] at hmeaning
    exact ⟨hmeaning.1.mono hsub, hmeaning.2⟩
  | moved =>
    rw [hkind] at hmeaning
    exact hmeaning
  | similarMoved =>
    rw [hkind] at hmeaning
    exact hmeaning

/-- Children of joined entries are joined for a reason. -/
lemma justified_of_mem_linkChildren (hold : old.WellPlaced) (hnew : new.WellPlaced)
    (hm : m ∈ more) (hl : l ∈ linkChildren threshold links m.old m.new)
    (hmold : m.old ∈ old.preorder) (hmnew : m.new ∈ new.preorder) : l.Justified threshold more := by
  have hparents : more.JoinsParents l :=
    ⟨m.old.seq, m.new.seq, hold.parent_eq _ hmold _ (old_of_mem_linkChildren hl).1,
      hnew.parent_eq _ hmnew _ (new_of_mem_linkChildren hl).1, m, hm, rfl, rfl⟩
  refine ⟨type_eq_of_mem_linkChildren hl, ?_⟩
  rw [Link.Meaning]
  rcases reason_of_mem_linkChildren hl with ⟨hkind, hkey⟩ | ⟨hkind, hrenaming⟩
  · rw [hkind]
    exact ⟨hparents, Entry.key_eq_iff.1 hkey⟩
  · rw [hkind]
    exact ⟨hparents, hrenaming⟩

/-- Candidates for a move are joined for a reason. -/
lemma MoveCandidate.Meets.justified {c : MoveCandidate} (h : c.Meets threshold links old new)
    (more : Links) : c.link.Justified threshold more := by
  refine ⟨h.type_eq, ?_⟩
  cases hname : c.sameName with
  | true =>
    obtain ⟨name, hold⟩ := Option.isSome_iff_exists.1 h.old_identified
    simp only [Link.Meaning, link, hname, if_true]
    exact ⟨name, hold, (h.sameName_iff.1 hname).symm.trans hold⟩
  | false =>
    simp only [Link.Meaning, link, hname]
    exact h.isRenaming hname

end

/-! ## Runs -/

namespace Links

/-- The states that are reached from the joined roots by joining free entries for a reason.  In
which order joined entries are visited is left open. -/
inductive Run (threshold : Binary64) (old new : Entry) : Links → Prop where
  | start : Run threshold old new [⟨old, new, .exact⟩]
  | join {links : Links} {l : Link} (h : Run threshold old new links)
      (old_mem : l.old ∈ old.preorder) (new_mem : l.new ∈ new.preorder)
      (old_free : links.freeOld l.old = true) (new_free : links.freeNew l.new = true)
      (justified : l.Justified threshold links) : Run threshold old new (l :: links)

/-- A state of the matching of two trees as it must be. -/
structure Sound (threshold : Binary64) (old new : Entry) (links : Links) : Prop where
  /-- An entry is joined with another one exactly if the other one is joined with it, and both know
  the same kind. -/
  mutual_link : ∀ e f kind, links.ofOld? e = some ⟨e, f, kind⟩ ↔ links.ofNew? f = some ⟨e, f, kind⟩
  oneToOne : links.OneToOne
  placed : ∀ l ∈ links, l.old ∈ old.preorder ∧ l.new ∈ new.preorder
  roots_joined : ⟨old, new, .exact⟩ ∈ links
  justified : ∀ l ∈ links, l ≠ ⟨old, new, .exact⟩ → l.Justified threshold links

namespace Sound

variable {threshold : Binary64} {links : Links} {old new : Entry} {l : Link}

/-- A link other than that of the roots joins entries below the roots. -/
lemma mem_descendants (h : links.Sound threshold old new) (hl : l ∈ links)
    (hne : l ≠ ⟨old, new, .exact⟩) : l.old ∈ old.descendants ∧ l.new ∈ new.descendants := by
  obtain ⟨hold, hnew⟩ := h.placed l hl
  refine ⟨(Entry.mem_preorder.1 hold).resolve_left fun heq => hne ?_,
    (Entry.mem_preorder.1 hnew).resolve_left fun heq => hne ?_⟩
  · exact h.oneToOne.eq_of_old hl h.roots_joined (congrArg Entry.seq heq)
  · exact h.oneToOne.eq_of_new hl h.roots_joined (congrArg Entry.seq heq)

/-- The roots are never free. -/
lemma roots_not_free (h : links.Sound threshold old new) :
    links.freeOld old = false ∧ links.freeNew new = false := by
  rw [← Bool.not_eq_true, ← Bool.not_eq_true, freeOld_iff, freeNew_iff]
  exact ⟨fun hfree => hfree _ h.roots_joined rfl, fun hfree => hfree _ h.roots_joined rfl⟩

end Sound

namespace Run

variable {threshold : Binary64} {links more : Links} {old new : Entry} {l m : Link}

/-! ### What holds along a run -/

lemma oneToOne (h : Run threshold old new links) : links.OneToOne := by
  induction h with
  | start => exact List.pairwise_singleton _ _
  | join _ _ _ hofree hnfree _ ih =>
    refine List.pairwise_cons.2 ⟨fun m hm => ⟨fun hseq => ?_, fun hseq => ?_⟩, ih⟩
    · exact freeOld_iff.1 hofree m hm hseq.symm
    · exact freeNew_iff.1 hnfree m hm hseq.symm

lemma placed (h : Run threshold old new links) :
    ∀ l ∈ links, l.old ∈ old.preorder ∧ l.new ∈ new.preorder := by
  induction h with
  | start =>
    intro l hl
    obtain rfl := List.mem_singleton.1 hl
    exact ⟨Entry.mem_preorder_self old, Entry.mem_preorder_self new⟩
  | join _ hold hnew _ _ _ ih =>
    intro l hl
    rcases List.mem_cons.1 hl with rfl | hl
    · exact ⟨hold, hnew⟩
    · exact ih l hl

lemma roots_joined (h : Run threshold old new links) : ⟨old, new, .exact⟩ ∈ links := by
  induction h with
  | start => exact List.mem_singleton_self _
  | join _ _ _ _ _ _ ih => exact List.mem_cons_of_mem _ ih

lemma justified (h : Run threshold old new links) :
    ∀ l ∈ links, l ≠ ⟨old, new, .exact⟩ → l.Justified threshold links := by
  induction h with
  | start =>
    intro l hl hne
    exact absurd (List.mem_singleton.1 hl) hne
  | join _ _ _ _ _ hjust ih =>
    intro l hl hne
    rcases List.mem_cons.1 hl with rfl | hl
    · exact hjust.mono (List.subset_cons_self _ _)
    · exact (ih l hl hne).mono (List.subset_cons_self _ _)

/-- **Every state of a run is sound.** -/
theorem sound (h : Run threshold old new links) : links.Sound threshold old new where
  mutual_link e f kind := by
    rw [h.oneToOne.ofOld?_eq_some_iff, h.oneToOne.ofNew?_eq_some_iff]
    simp
  oneToOne := h.oneToOne
  placed := h.placed
  roots_joined := h.roots_joined
  justified := h.justified

/-- The states before a state of a run belong to the run. -/
lemma of_suffix (h : Run threshold old new links) (hmore : more <:+ links) (hne : more ≠ []) :
    Run threshold old new more := by
  induction h with
  | start =>
    rcases List.suffix_cons_iff.1 hmore with rfl | hnil
    · exact start
    · exact absurd (List.suffix_nil.1 hnil) hne
  | join h hold hnew hofree hnfree hjust ih =>
    rcases List.suffix_cons_iff.1 hmore with rfl | hmore
    · exact join h hold hnew hofree hnfree hjust
    · exact ih hmore

/-! ### The loops of the matching -/

lemma joinAll {added : List Link} (h : Run threshold old new links) (hone : OneToOne added)
    (hplaced : ∀ l ∈ added, l.old ∈ old.preorder ∧ l.new ∈ new.preorder)
    (hfree : ∀ l ∈ added, links.freeOld l.old = true ∧ links.freeNew l.new = true)
    (hjust : ∀ l ∈ added, l.Justified threshold links) :
    Run threshold old new (links.joinAll added) := by
  induction added generalizing links with
  | nil => exact h
  | cons a rest ih =>
    rw [OneToOne, List.pairwise_cons] at hone
    simp only [List.forall_mem_cons] at hplaced hfree hjust
    -- joining the first leaves the others free, since no two of them share an entry
    refine ih (h.join hplaced.1.1 hplaced.1.2 hfree.1.1 hfree.1.2 hjust.1) hone.2 hplaced.2
      (fun l hl => ⟨freeOld_iff.2 ?_, freeNew_iff.2 ?_⟩)
      fun l hl => (hjust.2 l hl).mono (List.subset_cons_self _ _)
    · rw [List.forall_mem_cons]
      exact ⟨(hone.1 l hl).1, freeOld_iff.1 (hfree.2 l hl).1⟩
    · rw [List.forall_mem_cons]
      exact ⟨(hone.1 l hl).2, freeNew_iff.1 (hfree.2 l hl).2⟩

variable (hold : old.WellPlaced) (hnew : new.WellPlaced)

include hold hnew

/-- The links of one in-place stage continue a run, in whatever order they are added. -/
lemma joinAll_of_perm {made : List Link} (h : Run threshold old new links) (hm : m ∈ links)
    (hmade : made.Perm (linkChildren threshold links m.old m.new)) :
    Run threshold old new (links.joinAll made) := by
  obtain ⟨hmold, hmnew⟩ := h.placed m hm
  have hone := oneToOne_linkChildren threshold links (hold.of_mem hmold) (hnew.of_mem hmnew)
  refine h.joinAll (hone.perm hmade.symm fun h => symm h) (fun l hl => ?_) (fun l hl => ?_)
    fun l hl => justified_of_mem_linkChildren hold hnew hm (hmade.mem_iff.1 hl) hmold hmnew
  · have hl := hmade.mem_iff.1 hl
    exact ⟨Entry.child_mem_preorder hmold (old_of_mem_linkChildren hl).1,
      Entry.child_mem_preorder hmnew (new_of_mem_linkChildren hl).1⟩
  · have hl := hmade.mem_iff.1 hl
    exact ⟨(old_of_mem_linkChildren hl).2, (new_of_mem_linkChildren hl).2⟩

/-- The visits to the children continue a run if the visit to each child does. -/
lemma linkBelowEach {made : List Link} {children : List Entry}
    (ih : ∀ c ∈ children, ∀ {links m}, Run threshold old new links → m ∈ links → m.old = c →
      Run threshold old new (linkBelow threshold m.old m.new links))
    (hchildren : ∀ c ∈ children, c ∈ old.preorder) (h : Run threshold old new links)
    (hmade : made ⊆ links) :
    Run threshold old new (linkBelowEach threshold made children links) := by
  induction children generalizing links with
  | nil => exact h
  | cons c rest ihrest =>
    simp only [List.forall_mem_cons] at ih hchildren
    rw [TreeDiff.linkBelowEach]
    cases hfind : made.find? fun link => link.old.seq = c.seq with
    | none => exact ihrest ih.2 hchildren.2 h hmade
    | some m =>
      have hm : m ∈ links := hmade (List.mem_of_find?_eq_some hfind)
      have hseq : m.old.seq = c.seq := by simpa using List.find?_some hfind
      obtain ⟨hmold, hmnew⟩ := h.placed m hm
      -- the link is found by number, and numbers tell entries apart
      obtain rfl := hold.eq_of_seq hmold hchildren.1 hseq
      refine ihrest ih.2 hchildren.2 (ih.1 h hm rfl) fun l hl => ?_
      exact (mem_linkBelow (hold.of_mem hmold) (hnew.of_mem hmnew)).2 (Or.inl (hmade hl))

/-- The descent below joined entries continues a run. -/
lemma linkBelow (h : Run threshold old new links) (hm : m ∈ links) :
    Run threshold old new (linkBelow threshold m.old m.new links) := by
  generalize he : m.old = e
  induction e using Entry.induction_children generalizing m links with
  | step e ih =>
    obtain ⟨hmold, hmnew⟩ := h.placed m hm
    rw [he] at hmold
    have hmade := h.joinAll_of_perm hold hnew hm (List.Perm.refl _)
    rw [he] at hmade
    rw [linkBelow_eq]
    refine linkBelowEach hold hnew (fun c hc links p hp hpm hpc => ?_) (fun c hc => ?_) hmade
      fun l hl => mem_joinAll.2 (Or.inl hl)
    · have hrun := ih c hc hp hpm hpc
      rwa [← hpc] at hrun
    · exact Entry.child_mem_preorder hmold hc

/-- A visit to a candidate for a move continues a run, whatever was joined since it was found. -/
lemma acceptMove {found : Links} {c : MoveCandidate} (h : Run threshold old new links)
    (hc : c.Meets threshold found old new) :
    Run threshold old new (acceptMove threshold links c) := by
  by_cases hfree : c.IsFree links
  · rw [acceptMove_of_isFree hfree]
    have hjoin := h.join hc.old_mem hc.new_mem hfree.1 hfree.2 (hc.justified links)
    exact hjoin.linkBelow hold hnew List.mem_cons_self
  · rwa [acceptMove_of_not_isFree hfree]

lemma foldl_acceptMove {found : Links} {cs : List MoveCandidate}
    (hcs : ∀ c ∈ cs, c.Meets threshold found old new) (h : Run threshold old new links) :
    Run threshold old new (cs.foldl (TreeDiff.acceptMove threshold) links) := by
  induction cs generalizing links with
  | nil => exact h
  | cons c rest ih =>
    rw [List.forall_mem_cons] at hcs
    exact ih hcs.2 (h.acceptMove hold hnew hcs.1)

lemma linkInPlace (threshold : Binary64) :
    Run threshold old new (linkInPlace threshold old new) :=
  start.linkBelow hold hnew (List.mem_singleton_self _)

/-- **The matching is a run.** -/
theorem linkTrees (threshold : Binary64) : Run threshold old new (linkTrees threshold old new) :=
  (linkInPlace hold hnew threshold).foldl_acceptMove hold hnew fun _ hc => mem_moveCandidates.1 hc

end Run

end Links

/-! ## Two outlines -/

/-- A node whose text is its name. -/
def Outline.named (type name : String) (children : List Outline) : Outline :=
  ⟨type, [(.identifier, name)], name, ⟨0, 0⟩, ⟨0, 0⟩, children⟩

/-- Two classes, the first of which has a function. -/
def Outline.beforeMove : Outline :=
  .named "module" "m" [.named "class" "A" [.named "function" "f" []], .named "class" "B" []]

/-- The classes after the function went over to the second one. -/
def Outline.afterMove : Outline :=
  .named "module" "m" [.named "class" "A" [], .named "class" "B" [.named "function" "f" []]]

end TreeDiff
