/-
# Candidates with equal keys

The keys of the candidates for a move do not tell old from new.  They do not tell all candidates
apart either: the candidates of the `i`-th old with the `j`-th new entry and of the `j`-th old with
the `i`-th new entry may have equal keys, and no third candidate shares their key.  So when old and
new are exchanged, the candidates are visited in the same order, except that such neighbours may
change places. It makes no difference which of the two is visited first, unless joining one takes
an entry of the other.
-/
import TreeDiff.Proofs.Leftovers

namespace TreeDiff

/-! ## Candidates seen from the other side -/

namespace MoveCandidate

/-- The candidate seen from the other side. -/
def swap (c : MoveCandidate) : MoveCandidate := ⟨c.toCandidate.swap, c.sameName⟩

@[simp] lemma swap_swap (c : MoveCandidate) : c.swap.swap = c := rfl

@[simp] lemma link_swap (c : MoveCandidate) : c.swap.link = c.link.swap := rfl

@[simp] lemma swap_old (c : MoveCandidate) : c.swap.old = c.new := rfl

@[simp] lemma swap_new (c : MoveCandidate) : c.swap.new = c.old := rfl

lemma mem_map_swap {c : MoveCandidate} {cs : List MoveCandidate} :
    c ∈ cs.map swap ↔ c.swap ∈ cs := by
  rw [List.mem_map]
  constructor
  · rintro ⟨d, hd, rfl⟩
    exact hd
  · intro h
    exact ⟨c.swap, h, rfl⟩

/-- The order of candidates does not tell old from new. -/
lemma key_swap (c : MoveCandidate) : c.swap.key = c.key := by
  have hname : c.swap.sameName = c.sameName := rfl
  simp only [key, hname, swap_old, swap_new, Int.min_comm c.new.depth,
    Candidate.distance_comm c.new.depth, Candidate.distance_comm c.new.ordinal,
    Int.min_comm c.new.seq, Int.max_comm c.new.seq]
  rfl

end MoveCandidate

section

variable {threshold : Binary64} {links : Links} {old new : Entry} {c d : MoveCandidate}

lemma moveCandidate?_swap (h : moveCandidate? threshold old new = some c) :
    moveCandidate? threshold new old = some c.swap := by
  rw [moveCandidate?_eq_some] at h ⊢
  obtain ⟨hold, hnew, h⟩ := h
  refine ⟨hnew, hold, h.imp (fun h => ⟨h.1.symm, h.2⟩) fun h => ⟨h.1.symm, ?_, h.2.2⟩⟩
  rw [Entry.similarity_comm]
  exact h.2.1

lemma MoveCandidate.Meets.swap {back : Links} (hback : back.MirrorOf links)
    (h : c.Meets threshold links old new) : c.swap.Meets threshold back new old where
  old_mem := h.new_mem
  new_mem := h.old_mem
  old_free := hback.freeOld_eq.trans h.new_free
  new_free := hback.freeNew_eq.trans h.old_free
  old_identified := h.new_identified
  new_identified := h.old_identified
  type_eq := h.type_eq.symm
  candidate := moveCandidate?_swap h.candidate

/-! ## No candidate is found twice -/

/-- A candidate is told by its entries. -/
lemma MoveCandidate.Meets.eq_of_seq (hold : old.WellPlaced) (hnew : new.WellPlaced)
    (hc : c.Meets threshold links old new) (hd : d.Meets threshold links old new)
    (hoseq : c.old.seq = d.old.seq) (hnseq : c.new.seq = d.new.seq) : c = d := by
  have ho := hold.eq_of_seq hc.old_mem hd.old_mem hoseq
  have hn := hnew.eq_of_seq hc.new_mem hd.new_mem hnseq
  have hcand := hc.candidate
  rw [ho, hn, hd.candidate] at hcand
  exact (Option.some.inj hcand).symm

lemma Entry.WellPlaced.nodup_preorder (h : old.WellPlaced) : old.preorder.Nodup :=
  List.Nodup.of_map _ h.distinct

lemma nodup_filterMap_moveCandidate? {o : Entry} {news : List Entry} (hnews : news.Nodup) :
    (news.filterMap (moveCandidate? threshold o)).Nodup := by
  refine List.pairwise_filterMap.2
    (List.Pairwise.imp (fun {n n'} hne c hc d hd heq => hne ?_) hnews)
  rw [← (moveCandidate?_eq_some.1 hc).2.1, ← (moveCandidate?_eq_some.1 hd).2.1, heq]

lemma nodup_moveCandidates (threshold : Binary64) (links : Links) (hold : old.WellPlaced)
    (hnew : new.WellPlaced) : (moveCandidates threshold links old new).Nodup := by
  have hnews : ∀ type, (ofType type (new.preorder.filter fun e =>
      links.freeNew e && e.isIdentified)).Nodup := fun type =>
    (hnew.nodup_preorder.filter _).filter _
  have holds : ∀ type, (ofType type (old.preorder.filter fun e =>
      links.freeOld e && e.isIdentified)).Nodup := fun type =>
    (hold.nodup_preorder.filter _).filter _
  have hold_of : ∀ {o : Entry} {news : List Entry} {c : MoveCandidate},
      c ∈ news.filterMap (moveCandidate? threshold o) → c.old = o := by
    intro o news c hc
    obtain ⟨n, -, hcand⟩ := List.mem_filterMap.1 hc
    exact (moveCandidate?_eq_some.1 hcand).1
  -- a candidate is found under the type of its old entry, at this entry, once for each new entry
  rw [(perm_foundCandidates threshold links old new).nodup_iff, foundCandidates, List.nodup_flatMap]
  refine ⟨fun type _ => List.nodup_flatMap.2 ⟨fun o _ =>
    nodup_filterMap_moveCandidate? (hnews type), ?_⟩, ?_⟩
  · refine List.Pairwise.imp (fun {o o'} hne c hc hc' => hne ?_) (holds type)
    rw [← hold_of hc, hold_of hc']
  · refine (nodup_typesOf _).imp fun {type type'} hne c hc hc' => hne ?_
    obtain ⟨o, ho, hco⟩ := List.mem_flatMap.1 hc
    obtain ⟨o', ho', hco'⟩ := List.mem_flatMap.1 hc'
    rw [ofType, List.mem_filter, decide_eq_true_eq] at ho ho'
    rw [← ho.2, ← ho'.2, ← hold_of hco, hold_of hco']

/-- **The candidates do not tell old from new**, up to their order. -/
theorem perm_moveCandidates_swap (hold : old.WellPlaced) (hnew : new.WellPlaced) {back : Links}
    (hback : back.MirrorOf links) :
    ((moveCandidates threshold back new old).map MoveCandidate.swap).Perm
      (moveCandidates threshold links old new) := by
  have hnodup : ((moveCandidates threshold back new old).map MoveCandidate.swap).Nodup :=
    List.Nodup.map (fun c d h => congrArg MoveCandidate.swap h)
      (nodup_moveCandidates threshold back hnew hold)
  refine (List.perm_ext_iff_of_nodup hnodup (nodup_moveCandidates threshold links hold hnew)).2
    fun c => ?_
  rw [MoveCandidate.mem_map_swap, mem_moveCandidates, mem_moveCandidates]
  exact ⟨fun h => h.swap hback.symm, fun h => h.swap hback⟩

/-! ## Ties -/

/-- Candidates with the same key are the same, or their entries have the same numbers crosswise. -/
lemma MoveCandidate.Meets.crosswise (hold : old.WellPlaced) (hnew : new.WellPlaced)
    (hc : c.Meets threshold links old new) (hd : d.Meets threshold links old new)
    (hkey : c.key = d.key) (hne : c ≠ d) :
    c.old.seq = d.new.seq ∧ c.new.seq = d.old.seq ∧ c.old.seq ≠ c.new.seq := by
  simp only [key, List.cons.injEq] at hkey
  obtain ⟨-, -, -, -, -, hmin, hmax, -⟩ := hkey
  have hdiff : ¬(c.old.seq = d.old.seq ∧ c.new.seq = d.new.seq) := fun h =>
    hne (hc.eq_of_seq hold hnew hd h.1 h.2)
  omega

/-- Candidates in two orders that differ in that some neighbours with equal keys changed places. -/
inductive UpToTies : List MoveCandidate → List MoveCandidate → Prop where
  | nil : UpToTies [] []
  | cons (c : MoveCandidate) {cs ds : List MoveCandidate} (h : UpToTies cs ds) :
      UpToTies (c :: cs) (c :: ds)
  | tie {c d : MoveCandidate} (hkey : c.key = d.key) (hne : c ≠ d) {cs ds : List MoveCandidate}
      (h : UpToTies cs ds) : UpToTies (c :: d :: cs) (d :: c :: ds)

/-- The head of sorted candidates has the key of any candidate that does not come after it. -/
lemma key_head_eq {cs : List MoveCandidate}
    (hsorted : (d :: cs).Pairwise fun c d => lexNotAfter c.key d.key = true) (hc : c ∈ d :: cs)
    (hle : lexNotAfter c.key d.key = true) : d.key = c.key := by
  rcases List.mem_cons.1 hc with rfl | hc
  · rfl
  · exact lexNotAfter_antisymm ((List.pairwise_cons.1 hsorted).1 c hc) hle

/-- A candidate with the key of the first one comes second, if no third one has this key. -/
lemma exists_cons_of_tie {cs : List MoveCandidate}
    (hsorted : (c :: cs).Pairwise fun c d => lexNotAfter c.key d.key = true)
    (hnodup : (c :: cs).Nodup) (hd : d ∈ cs) (hkey : c.key = d.key)
    (honly : ∀ e ∈ cs, c.key = e.key → e = c ∨ e = d) : ∃ rest, cs = d :: rest := by
  rw [List.pairwise_cons] at hsorted
  rw [List.nodup_cons] at hnodup
  cases cs with
  | nil => exact absurd hd List.not_mem_nil
  | cons e rest =>
    have hek : e.key = d.key := key_head_eq hsorted.2 hd (hkey ▸ hsorted.1 e List.mem_cons_self)
    rcases honly e List.mem_cons_self (hkey.trans hek.symm) with rfl | rfl
    · exact absurd List.mem_cons_self hnodup.1
    · exact ⟨rest, rfl⟩

/-- **Sorted candidates are in one order up to ties**, if no three candidates share a key. -/
theorem upToTies_of_perm {cs ds : List MoveCandidate}
    (htwo : ∀ a ∈ cs, ∀ b ∈ cs, ∀ c ∈ cs, a.key = b.key → a.key = c.key → a ≠ b → c = a ∨ c = b)
    (hcs : cs.Pairwise fun c d => lexNotAfter c.key d.key = true)
    (hds : ds.Pairwise fun c d => lexNotAfter c.key d.key = true)
    (hnodup : cs.Nodup) (hperm : cs.Perm ds) : UpToTies cs ds := by
  generalize hn : cs.length = n
  induction n using Nat.strongRecOn generalizing cs ds with
  | ind n ih =>
    cases cs with
    | nil =>
      rw [hperm.symm.eq_nil]
      exact .nil
    | cons c cs =>
      cases ds with
      | nil => exact absurd hperm.eq_nil (List.cons_ne_nil c cs)
      | cons d ds =>
        by_cases hcd : c = d
        · subst hcd
          refine (ih cs.length (by simp [← hn]) (fun a ha b hb e he => ?_) hcs.of_cons hds.of_cons
            hnodup.of_cons hperm.cons_inv rfl).cons c
          exact htwo a (List.mem_cons_of_mem c ha) b (List.mem_cons_of_mem c hb) e
            (List.mem_cons_of_mem c he)
        · have hd : d ∈ cs :=
            (List.mem_cons.1 (hperm.symm.subset List.mem_cons_self)).resolve_left (Ne.symm hcd)
          have hc : c ∈ ds := (List.mem_cons.1 (hperm.subset List.mem_cons_self)).resolve_left hcd
          have hkey : c.key = d.key := lexNotAfter_antisymm ((List.pairwise_cons.1 hcs).1 d hd)
            ((List.pairwise_cons.1 hds).1 c hc)
          have honly : ∀ e ∈ c :: cs, c.key = e.key → e = c ∨ e = d := fun e he hek =>
            htwo c List.mem_cons_self d (List.mem_cons_of_mem c hd) e he hkey hek hcd
          -- in both orders the two candidates stand at the front, one way round and the other
          obtain ⟨cs, rfl⟩ := exists_cons_of_tie hcs hnodup hd hkey fun e he =>
            honly e (List.mem_cons_of_mem c he)
          obtain ⟨ds, rfl⟩ := exists_cons_of_tie hds (hperm.nodup_iff.1 hnodup) hc hkey.symm
            fun e he hek => (honly e (hperm.symm.subset (List.mem_cons_of_mem d he))
              (hkey.trans hek)).symm
          have hrest : cs.Perm ds := (hperm.trans (List.Perm.swap c d ds)).cons_inv.cons_inv
          have hlt : cs.length < n := by
            simp only [← hn, List.length_cons]
            omega
          refine .tie hkey hcd (ih cs.length hlt (fun a ha b hb e he => ?_)
            hcs.of_cons.of_cons hds.of_cons.of_cons hnodup.of_cons.of_cons hrest rfl)
          have hmem : cs ⊆ c :: d :: cs := fun x hx =>
            List.mem_cons_of_mem c (List.mem_cons_of_mem d hx)
          exact htwo a (hmem ha) b (hmem hb) e (hmem he)

end

end TreeDiff
