/-
# Every state of the matching is sound

The matching runs in small steps.  It takes one of the joined pairs below which the children are
still to be linked, decides on links among the children, and adds them one after the other; every
link that is added waits in turn.  When no pair waits, the candidates for a move are listed once and
visited in their order, and below each one that is joined the children are linked as before.  In
which order pairs are taken and types are visited is left open.

All states that can be reached are sound, and a state keeps the links of the states before it.
There is no endless matching; and since what the rest of the matching will make of a state is the
same after every step, all of them end with the links of the recursion.
-/
import TreeDiff.Proofs.Orders
import TreeDiff.Proofs.Worklists

namespace TreeDiff

/-- A state of the matching of two trees. -/
structure Matching where
  /-- The links made so far. -/
  links : Links
  /-- The links on which the stage that is under way has decided and which it has not added yet. -/
  planned : List Link
  /-- The joined pairs below which the children are still to be linked. -/
  pending : List (Entry × Entry)
  /-- The candidates for a move that are still to be visited, once they are listed. -/
  candidates : Option (List MoveCandidate)

namespace Matching

/-- The state in which only the roots are joined. -/
def start (old new : Entry) : Matching := ⟨[⟨old, new, .exact⟩], [], [(old, new)], none⟩

/-- One step of the matching. -/
inductive Step (threshold : Binary64) (old new : Entry) : Matching → Matching → Prop where
  /-- The next planned link is added, and its pair waits. -/
  | join {links : Links} {l : Link} {planned : List Link} {pending : List (Entry × Entry)}
      {candidates : Option (List MoveCandidate)} :
      Step threshold old new ⟨links, l :: planned, pending, candidates⟩
        ⟨l :: links, planned, (l.old, l.new) :: pending, candidates⟩
  /-- One of the pairs that wait is taken, and links are planned among its children, type by
  type. -/
  | take {links : Links} {pending rest : List (Entry × Entry)}
      {candidates : Option (List MoveCandidate)} {o n : Entry} {types : List String}
      (pending_perm : pending.Perm ((o, n) :: rest))
      (types_perm : types.Perm (typesOf (o.children.filter links.freeOld))) :
      Step threshold old new ⟨links, [], pending, candidates⟩
        ⟨links, linkTypes threshold o n types links, rest, candidates⟩
  /-- When all is done in place, the candidates for a move are listed. -/
  | list {links : Links} : Step threshold old new ⟨links, [], [], none⟩
      ⟨links, [], [], some (moveCandidates threshold links old new)⟩
  /-- A candidate is joined if its entries are both free. -/
  | accept {links : Links} {c : MoveCandidate} {rest : List MoveCandidate} (free : c.IsFree links) :
      Step threshold old new ⟨links, [], [], some (c :: rest)⟩
        ⟨c.link :: links, [], [(c.old, c.new)], some rest⟩
  /-- Otherwise it is passed over. -/
  | skip {links : Links} {c : MoveCandidate} {rest : List MoveCandidate} (taken : ¬c.IsFree links) :
      Step threshold old new ⟨links, [], [], some (c :: rest)⟩ ⟨links, [], [], some rest⟩

/-- Whether one state comes from another one by steps. -/
def Run (threshold : Binary64) (old new : Entry) : Matching → Matching → Prop :=
  Relation.ReflTransGen (Step threshold old new)

/-- Whether the matching has come to an end. -/
def IsOver (s : Matching) : Prop := s.planned = [] ∧ s.pending = [] ∧ s.candidates = some []

/-- The worklist that is under way, when the planned links are counted as made. -/
def worklist (s : Matching) : Worklist :=
  ⟨s.planned.map (fun l => (l.old, l.new)) ++ s.pending, s.links.joinAll s.planned⟩

variable {threshold : Binary64} {old new : Entry} {s t : Matching} {links more : Links} {l : Link}

/-! ## Every matching comes to an end -/

/-- The matching is over exactly if there is no further step. -/
lemma isOver_iff : s.IsOver ↔ ∀ t, ¬Step threshold old new s t := by
  constructor
  · rintro ⟨hplanned, hpending, hcandidates⟩ t hstep
    cases hstep with
    | join => exact List.cons_ne_nil _ _ hplanned
    | take hperm _ =>
      obtain rfl : _ = [] := hpending
      exact List.cons_ne_nil _ _ hperm.nil_eq.symm
    | list => exact Option.some_ne_none _ hcandidates.symm
    | accept _ => exact List.cons_ne_nil _ _ (Option.some.inj hcandidates)
    | skip _ => exact List.cons_ne_nil _ _ (Option.some.inj hcandidates)
  · intro h
    obtain ⟨links, planned, pending, candidates⟩ := s
    cases planned with
    | cons l planned => exact absurd .join (h _)
    | nil =>
      cases pending with
      | cons p pending => exact absurd (.take (List.Perm.refl _) (List.Perm.refl _)) (h _)
      | nil =>
        cases candidates with
        | none => exact absurd .list (h _)
        | some candidates =>
          cases candidates with
          | nil => exact ⟨rfl, rfl, rfl⟩
          | cons c rest =>
            by_cases hfree : c.IsFree links
            · exact absurd (.accept hfree) (h _)
            · exact absurd (.skip hfree) (h _)

/-- How many candidates are still to be visited; before they are listed, there is no bound. -/
def toVisit (s : Matching) : WithTop ℕ := (s.candidates.map List.length).elim ⊤ (↑)

/-- Fewer candidates are to be visited, or else a pair was replaced by pairs below it, or else fewer
links are planned. -/
def Precedes : WithTop ℕ × Multiset (Entry × Entry) × ℕ →
    WithTop ℕ × Multiset (Entry × Entry) × ℕ → Prop :=
  Prod.Lex (· < ·) (Prod.Lex
    (Relation.CutExpand fun p q : Entry × Entry => p.1 ∈ q.1.children) (· < ·))

/-- What decreases in every step. -/
def measure (s : Matching) : WithTop ℕ × Multiset (Entry × Entry) × ℕ :=
  (s.toVisit, s.worklist.pending, s.planned.length)

/-- **There is no endless matching.** -/
theorem wellFounded_step (threshold : Binary64) (old new : Entry) :
    WellFounded fun t s : Matching => Step threshold old new s t := by
  have hprecedes : WellFounded Precedes := WellFounded.prod_lex wellFounded_lt
    (WellFounded.prod_lex Worklist.wellFounded_below.cutExpand wellFounded_lt)
  refine (InvImage.wf measure hprecedes).mono fun t s h => ?_
  cases h with
  | @join links l planned pending candidates =>
    have hpending : (((planned.map fun l => (l.old, l.new)) ++ (l.old, l.new) :: pending : List _) :
        Multiset (Entry × Entry)) = (((l :: planned).map fun l => (l.old, l.new)) ++ pending :
          List _) := Multiset.coe_eq_coe.2 List.perm_middle
    refine Prod.Lex.right _ ?_
    simp only [worklist, hpending]
    exact Prod.Lex.right _ (Nat.lt_succ_self _)
  | @take links pending rest candidates o n types hperm htypes =>
    have hstep : Worklist.Step threshold ⟨pending, links⟩
        (Worklist.andThen links (linkTypes threshold o n types links) rest) := .take hperm htypes
    exact Prod.Lex.right _ (Prod.Lex.left _ _ hstep.cutExpand)
  | list => exact Prod.Lex.left _ _ (WithTop.coe_lt_top _)
  | accept _ => exact Prod.Lex.left _ _ (WithTop.coe_lt_coe.2 (Nat.lt_succ_self _))
  | skip _ => exact Prod.Lex.left _ _ (WithTop.coe_lt_coe.2 (Nat.lt_succ_self _))

/-- **From every state the matching comes to an end.** -/
theorem exists_isOver (threshold : Binary64) (old new : Entry) (s : Matching) :
    ∃ t, Run threshold old new s t ∧ t.IsOver := by
  induction s using (wellFounded_step threshold old new).induction with
  | h s ih =>
    by_cases hstep : ∃ t, Step threshold old new s t
    · obtain ⟨t, hstep⟩ := hstep
      obtain ⟨u, hrun, hover⟩ := ih t hstep
      exact ⟨u, .head hstep hrun, hover⟩
    · exact ⟨s, .refl, isOver_iff.2 (not_exists.1 hstep)⟩

/-! ## States are sound -/

/-- What holds of every state of the matching of two trees. -/
structure Valid (threshold : Binary64) (old new : Entry) (s : Matching) : Prop where
  /-- The links and those that are planned join free entries for a reason. -/
  run : Links.Run threshold old new (s.links.joinAll s.planned)
  roots_joined : ⟨old, new, .exact⟩ ∈ s.links
  /-- What waits is joined. -/
  joined : ∀ p ∈ s.pending, ∃ m ∈ s.links, m.old = p.1 ∧ m.new = p.2
  /-- The pairs that wait head trees that have nothing in common. -/
  tidy : s.worklist.Tidy
  meets : ∀ cs, s.candidates = some cs → ∀ c ∈ cs, ∃ found, c.Meets threshold found old new

lemma Valid.start (hold : old.WellPlaced) (hnew : new.WellPlaced) :
    (start old new).Valid threshold old new where
  run := .start
  roots_joined := List.mem_singleton_self _
  joined p hp := by
    rw [List.mem_singleton.1 hp]
    exact ⟨_, List.mem_singleton_self _, rfl, rfl⟩
  tidy := Worklist.tidy_singleton hold hnew
  meets _ hcs := absurd hcs.symm (Option.some_ne_none _)

/-- The order in which pairs wait makes no difference. -/
lemma tidy_congr {before after : List (Entry × Entry)} (h : before.Perm after)
    (hbefore : Worklist.Tidy ⟨before, links⟩) : Worklist.Tidy ⟨after, more⟩ where
  placed p hp := hbefore.placed p (h.mem_iff.2 hp)
  apart := hbefore.apart.perm h fun h => symm h

section

variable (hold : old.WellPlaced) (hnew : new.WellPlaced)

include hold hnew

/-- **What a step preserves.** -/
theorem Valid.step (hs : s.Valid threshold old new) (h : Step threshold old new s t) :
    t.Valid threshold old new := by
  cases h with
  | @join links l planned pending candidates =>
    refine ⟨hs.run, List.mem_cons_of_mem _ hs.roots_joined, fun p hp => ?_,
      tidy_congr List.perm_middle.symm hs.tidy, hs.meets⟩
    rcases List.mem_cons.1 hp with rfl | hp
    · exact ⟨l, List.mem_cons_self, rfl, rfl⟩
    · obtain ⟨m, hm, hpair⟩ := hs.joined p hp
      exact ⟨m, List.mem_cons_of_mem _ hm, hpair⟩
  | @take links pending rest candidates o n types hperm htypes =>
    obtain ⟨m, hm, rfl, rfl⟩ := hs.joined (o, n) (hperm.mem_iff.2 List.mem_cons_self)
    obtain ⟨hmold, hmnew⟩ := hs.run.placed m hm
    have hmade : (linkTypes threshold m.old m.new types links).Perm
        (linkChildren threshold links m.old m.new) :=
      perm_linkTypes (hold.of_mem hmold) (hnew.of_mem hmnew) htypes
    have hstep : Worklist.Step threshold ⟨pending, links⟩
        (Worklist.andThen links (linkTypes threshold m.old m.new types links) rest) :=
      .take hperm htypes
    exact ⟨hs.run.joinAll_of_perm hold hnew hm hmade, hs.roots_joined,
      fun p hp => hs.joined p (hperm.mem_iff.2 (List.mem_cons_of_mem _ hp)),
      (hstep.preserves hs.tidy).1, hs.meets⟩
  | list =>
    refine ⟨hs.run, hs.roots_joined, hs.joined, hs.tidy, fun cs hcs c hc => ?_⟩
    obtain rfl := Option.some.inj hcs
    exact ⟨_, mem_moveCandidates.1 hc⟩
  | @accept links c rest hfree =>
    obtain ⟨found, hc⟩ := hs.meets _ rfl c List.mem_cons_self
    refine ⟨hs.run.join hc.old_mem hc.new_mem hfree.1 hfree.2 (hc.justified links),
      List.mem_cons_of_mem _ hs.roots_joined, fun p hp => ?_,
      Worklist.tidy_singleton (hold.of_mem hc.old_mem) (hnew.of_mem hc.new_mem),
      fun cs hcs d hd => ?_⟩
    · rw [List.mem_singleton.1 hp]
      exact ⟨c.link, List.mem_cons_self, rfl, rfl⟩
    · obtain rfl := Option.some.inj hcs
      exact hs.meets _ rfl d (List.mem_cons_of_mem _ hd)
  | skip =>
    refine ⟨hs.run, hs.roots_joined, hs.joined, hs.tidy, fun cs hcs d hd => ?_⟩
    obtain rfl := Option.some.inj hcs
    exact hs.meets _ rfl d (List.mem_cons_of_mem _ hd)

lemma Valid.of_run (hs : s.Valid threshold old new) (h : Run threshold old new s t) :
    t.Valid threshold old new := by
  induction h with
  | refl => exact hs
  | tail _ hstep ih => exact ih.step hold hnew hstep

end

/-- The links that are there belong to a sequence of links that is sound. -/
lemma Valid.links_run (h : s.Valid threshold old new) : Links.Run threshold old new s.links := by
  refine h.run.of_suffix ?_ (List.ne_nil_of_mem h.roots_joined)
  rw [Links.joinAll_eq]
  exact List.suffix_append _ _

/-- A step adds a link or leaves the links as they are. -/
lemma Step.suffix (h : Step threshold old new s t) : s.links <:+ t.links := by
  cases h with
  | join => exact List.suffix_cons _ _
  | take => exact List.suffix_rfl
  | list => exact List.suffix_rfl
  | accept => exact List.suffix_cons _ _
  | skip => exact List.suffix_rfl

lemma Step.length_le (h : Step threshold old new s t) : t.links.length ≤ s.links.length + 1 := by
  cases h with
  | join => exact le_rfl
  | take => exact Nat.le_succ _
  | list => exact Nat.le_succ _
  | accept => exact le_rfl
  | skip => exact Nat.le_succ _

lemma suffix_of_run (h : Run threshold old new s t) : s.links <:+ t.links := by
  induction h with
  | refl => exact List.suffix_rfl
  | tail _ hstep ih => exact ih.trans hstep.suffix

/-- Links are added one by one, so on the way every number of links in between is met. -/
lemma exists_length_eq (h : Run threshold old new s t) {n : ℕ} (hs : s.links.length ≤ n)
    (ht : n ≤ t.links.length) :
    ∃ u, Run threshold old new s u ∧ Run threshold old new u t ∧ u.links.length = n := by
  induction h using Relation.ReflTransGen.head_induction_on with
  | refl => exact ⟨t, .refl, .refl, ht.antisymm' hs⟩
  | @head s u hstep hrun ih =>
    rcases hs.eq_or_lt with heq | hlt
    · exact ⟨s, .refl, .head hstep hrun, heq⟩
    · obtain ⟨v, hu, hv, hlength⟩ := ih (hstep.length_le.trans hlt)
      exact ⟨v, .head hstep hu, hv, hlength⟩

/-! ## What is still to come -/

/-- The links below pairs that wait, made by the recursion below one pair after the other. -/
def descend (threshold : Binary64) (w : Worklist) : Links :=
  w.pending.foldl (fun links p => linkBelow threshold p.1 p.2 links) w.links

/-- The links when all is done that is left to do in a state. -/
def finish (threshold : Binary64) (old new : Entry) (s : Matching) : Links :=
  match s.candidates with
  | none => linkMoves threshold old new (descend threshold s.worklist)
  | some rest => rest.foldl (acceptMove threshold) (descend threshold s.worklist)

lemma finish_start : (start old new).finish threshold old new = linkTrees threshold old new := rfl

lemma IsOver.finish_eq (h : s.IsOver) : s.finish threshold old new = s.links := by
  obtain ⟨links, planned, pending, candidates⟩ := s
  obtain ⟨rfl, rfl, rfl⟩ := h
  rfl

/-- The recursion below the pairs that wait makes the outcome of their worklist. -/
lemma mem_descend {w : Worklist} (hw : w.Tidy) :
    l ∈ descend threshold w ↔ w.Outcome threshold l := by
  obtain ⟨pending, links⟩ := w
  induction pending generalizing links with
  | nil => exact (Worklist.outcome_of_pending_eq_nil rfl).symm
  | cons p rest ih =>
    obtain ⟨o, n⟩ := p
    obtain ⟨hold, hnew, hrest, -⟩ := hw.taken (List.Perm.refl _)
    obtain ⟨after, hafter, hrun⟩ : ∃ after : List (Entry × Entry), after.Perm rest ∧
        Worklist.Run threshold ⟨(o, n) :: rest, links⟩ ⟨after, linkBelow threshold o n links⟩ :=
      Worklist.exists_run_linkBelow hold hnew (List.Perm.refl _)
    rw [← (Worklist.preserves_of_run hrun hw).2.1 l, Worklist.outcome_congr hafter]
    exact ih _ (tidy_congr (List.Perm.refl _) hrest)

/-- A round of visits does not depend on the order of the links. -/
lemma foldl_acceptMove_congr {cs : List MoveCandidate} (hcs : WellPlacedCandidates cs)
    (h : ∀ l, l ∈ links ↔ l ∈ more) (l : Link) :
    l ∈ cs.foldl (acceptMove threshold) links ↔ l ∈ cs.foldl (acceptMove threshold) more := by
  induction cs generalizing links more with
  | nil => exact h l
  | cons c rest ih =>
    obtain ⟨hold, hnew⟩ := hcs c List.mem_cons_self
    exact ih hcs.tail (acceptMove_congr hold hnew h)

lemma moveCandidates_congr (h : ∀ l, l ∈ links ↔ l ∈ more) :
    moveCandidates threshold links old new = moveCandidates threshold more old new := by
  have hold : links.freeOld = more.freeOld := funext fun _ => Links.freeOld_congr h
  have hnew : links.freeNew = more.freeNew := funext fun _ => Links.freeNew_congr h
  simp only [moveCandidates, hold, hnew]

section

variable (hold : old.WellPlaced) (hnew : new.WellPlaced)

include hold hnew

/-- What is still to come does not depend on how the worklist got to its outcome. -/
lemma finish_congr {candidates : Option (List MoveCandidate)}
    (hs : s.Valid threshold old new) (ht : t.Valid threshold old new)
    (hcandidates : s.candidates = candidates ∧ t.candidates = candidates)
    (h : ∀ l, t.worklist.Outcome threshold l ↔ s.worklist.Outcome threshold l) (l : Link) :
    l ∈ t.finish threshold old new ↔ l ∈ s.finish threshold old new := by
  have hsame : ∀ l, l ∈ descend threshold t.worklist ↔ l ∈ descend threshold s.worklist := by
    intro l
    rw [mem_descend ht.tidy, mem_descend hs.tidy, h]
  rw [finish, finish, hcandidates.1, hcandidates.2]
  cases candidates with
  | none =>
    rw [linkMoves, linkMoves, moveCandidates_congr hsame]
    exact foldl_acceptMove_congr (wellPlacedCandidates_moveCandidates _ _ hold hnew) hsame l
  | some rest =>
    refine foldl_acceptMove_congr (fun c hc => ?_) hsame l
    obtain ⟨found, hmeets⟩ := hs.meets rest hcandidates.1 c hc
    exact ⟨hold.of_mem hmeets.old_mem, hnew.of_mem hmeets.new_mem⟩

/-- **A step leaves what is still to come as it is.** -/
theorem mem_finish_step (hs : s.Valid threshold old new) (h : Step threshold old new s t)
    (l : Link) :
    l ∈ t.finish threshold old new ↔ l ∈ s.finish threshold old new := by
  have ht := hs.step hold hnew h
  cases h with
  | join =>
    refine finish_congr hold hnew hs ht ⟨rfl, rfl⟩ (fun _ => ?_) l
    exact Worklist.outcome_congr List.perm_middle
  | @take links pending rest candidates o n types hperm htypes =>
    have hstep : Worklist.Step threshold ⟨pending, links⟩
        (Worklist.andThen links (linkTypes threshold o n types links) rest) := .take hperm htypes
    exact finish_congr hold hnew hs ht ⟨rfl, rfl⟩ (hstep.preserves hs.tidy).2.1 l
  | list => exact Iff.rfl
  | @accept links c rest hfree =>
    have haccept : finish threshold old new ⟨links, [], [], some (c :: rest)⟩ =
        finish threshold old new ⟨c.link :: links, [], [(c.old, c.new)], some rest⟩ :=
      congrArg (rest.foldl _) (acceptMove_of_isFree hfree)
    rw [haccept]
  | @skip links c rest htaken =>
    have hskip : finish threshold old new ⟨links, [], [], some (c :: rest)⟩ =
        finish threshold old new ⟨links, [], [], some rest⟩ :=
      congrArg (rest.foldl _) (acceptMove_of_not_isFree htaken)
    rw [hskip]

lemma mem_finish_of_run (hs : s.Valid threshold old new) (h : Run threshold old new s t)
    (l : Link) :
    l ∈ t.finish threshold old new ↔ l ∈ s.finish threshold old new := by
  induction h with
  | refl => exact Iff.rfl
  | tail hrun hstep ih =>
    exact (mem_finish_step hold hnew (hs.of_run hold hnew hrun) hstep l).trans ih

/-- **All matchings end with the links of the recursion.** -/
theorem perm_linkTrees_of_isOver (h : Run threshold old new (start old new) s) (hover : s.IsOver) :
    s.links.Perm (linkTrees threshold old new) := by
  have hstart : (start old new).Valid threshold old new := .start hold hnew
  have hmem : ∀ l, l ∈ s.links ↔ l ∈ linkTrees threshold old new := fun l => by
    have hfinish : s.finish threshold old new = s.links := hover.finish_eq
    rw [← hfinish, mem_finish_of_run hold hnew hstart h, finish_start]
  exact (Worklist.lookups_eq_of_mem_iff (hstart.of_run hold hnew h).links_run.oneToOne
    (Links.Run.linkTrees hold hnew threshold).oneToOne hmem).1

end

end Matching

/-! ## The matching of two outlines -/

/-- **Every state of the matching is sound, and no entry is ever joined anew.**  The states are
those that steps lead to from the joined roots; a later state keeps the link of every entry that
has one, and the state in which the matching is over has the links of the recursion, up to their
order. -/
theorem sound_of_run (threshold : Binary64) (old new : Outline) {s t : Matching}
    (hs : Matching.Run threshold (.root old) (.root new) (.start (.root old) (.root new)) s)
    (ht : Matching.Run threshold (.root old) (.root new) s t) :
    s.links.Sound threshold (.root old) (.root new) ∧
      (∀ e l, (s.links.ofOld? e = some l → t.links.ofOld? e = some l) ∧
        (s.links.ofNew? e = some l → t.links.ofNew? e = some l)) ∧
      (t.IsOver → t.links.Perm (linkTrees threshold (.root old) (.root new))) := by
  have hold := Entry.wellPlaced_root old
  have hnew := Entry.wellPlaced_root new
  have hvalid : s.Valid threshold (.root old) (.root new) :=
    (Matching.Valid.start hold hnew).of_run hold hnew hs
  have hone := hvalid.links_run.oneToOne
  have hone' := (hvalid.of_run hold hnew ht).links_run.oneToOne
  have hsub := (Matching.suffix_of_run ht).subset
  refine ⟨hvalid.links_run.sound, fun e l => ⟨fun h => ?_, fun h => ?_⟩,
    Matching.perm_linkTrees_of_isOver hold hnew (hs.trans ht)⟩
  · rw [hone.ofOld?_eq_some_iff] at h
    exact hone'.ofOld?_eq_some_iff.2 ⟨hsub h.1, h.2⟩
  · rw [hone.ofNew?_eq_some_iff] at h
    exact hone'.ofNew?_eq_some_iff.2 ⟨hsub h.1, h.2⟩

/-- A matching in which a function is moved, and a state of it in which one link is still
missing. -/
theorem sound_run_beforeMove_afterMove :
    ∃ s t, Matching.Run .one (.root .beforeMove) (.root .afterMove)
        (.start (.root .beforeMove) (.root .afterMove)) s ∧
      Matching.Run .one (.root .beforeMove) (.root .afterMove) s t ∧ t.IsOver ∧
      s.links.Sound .one (.root .beforeMove) (.root .afterMove) ∧
      s.links.length = 3 ∧ t.links.length = 4 := by
  obtain ⟨t, hrun, hover⟩ := Matching.exists_isOver .one (.root .beforeMove) (.root .afterMove)
    (.start (.root .beforeMove) (.root .afterMove))
  have hlength : t.links.length = 4 := by
    rw [((sound_of_run .one .beforeMove .afterMove hrun .refl).2.2 hover).length_eq]
    decide +kernel
  obtain ⟨s, hs, ht, hmissing⟩ := Matching.exists_length_eq hrun (n := 3)
    (Nat.le_of_ble_eq_true rfl) (hlength ▸ Nat.le_succ 3)
  have hsound := (sound_of_run .one .beforeMove .afterMove hs ht).1
  exact ⟨s, t, hs, ht, hover, hsound, hmissing, hlength⟩

end TreeDiff
