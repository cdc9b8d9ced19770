/-
# Pairing siblings

What the two rules of pairing do together with siblings of one type: whom they join and why, that
they do not leave two free that fit, and that they do not tell old from new.
-/
import Mathlib.Data.List.Nodup
import Mathlib.Data.Set.Function
import TreeDiff.Proofs.BestFirst
import TreeDiff.Proofs.KeyPairing
import TreeDiff.Proofs.Similarity

namespace TreeDiff

namespace Entry

lemma similarity_comm (threshold : Binary64) (old new : Entry) :
    old.similarity threshold new = new.similarity threshold old :=
  Text.similarity_comm _ _ _

/-- Whether the new entry may be the old one under another name: both have an identifier, and their
texts are similar enough. -/
structure IsRenaming (threshold : Binary64) (old new : Entry) : Prop where
  identified : ∃ a b, old.identifier = some a ∧ new.identifier = some b ∧ a ≠ b
  reaches : reaches threshold (old.similarity threshold new) = true

/-- Whether two children of joined entries may be joined in place: they have one type and the same
key, or they have identifiers and similar texts. -/
def Fits (threshold : Binary64) (old new : Entry) : Prop :=
  old.type = new.type ∧ (old.key = new.key ∨ old.isIdentified = true ∧ new.isIdentified = true ∧
    TreeDiff.reaches threshold (old.similarity threshold new) = true)

lemma key_eq_of_identifier_eq {old new : Entry} (hold : old.isIdentified = true)
    (h : old.identifier = new.identifier) : old.key = new.key := by
  rw [isIdentified, Option.isSome_iff_exists] at hold
  obtain ⟨name, hname⟩ := hold
  rw [key, key, ← h, hname]

/-- Entries have the same key if they have the same identifier, or none and the same ordinal. -/
lemma key_eq_iff {old new : Entry} :
    old.key = new.key ↔ old.identifier = new.identifier ∧
      (old.identifier = none → old.ordinal = new.ordinal) := by
  rw [key, key]
  cases old.identifier <;> cases new.identifier <;> simp

end Entry

section

variable {threshold : Binary64} {olds news : List Entry}

/-! ## Candidates among siblings -/

lemma mem_similarCandidates {c : Candidate} :
    c ∈ similarCandidates threshold olds news ↔ c.old ∈ olds ∧ c.new ∈ news ∧
      c.score = c.old.similarity threshold c.new ∧ reaches threshold c.score = true := by
  simp only [similarCandidates, List.mem_flatMap, List.mem_filterMap, Option.ite_none_right_eq_some,
    Option.some.injEq]
  constructor
  · rintro ⟨old, hold, new, hnew, hreaches, rfl⟩
    exact ⟨hold, hnew, rfl, hreaches⟩
  · rintro ⟨hold, hnew, hscore, hreaches⟩
    refine ⟨c.old, hold, c.new, hnew, hscore ▸ hreaches, ?_⟩
    rw [← hscore]

lemma swap_mem_similarCandidates {c : Candidate} :
    c.swap ∈ similarCandidates threshold news olds ↔ c ∈ similarCandidates threshold olds news := by
  rw [mem_similarCandidates, mem_similarCandidates]
  simp only [Candidate.swap, Entry.similarity_comm threshold c.new]
  tauto

/-- Candidates that share an entry and have the same key share the other entry as well: the smaller
and the greater of the two numbers are part of the key. -/
lemma keysTellApart_similarCandidates (holds : Set.InjOn Entry.seq {e | e ∈ olds})
    (hnews : Set.InjOn Entry.seq {e | e ∈ news}) :
    KeysTellApart (similarCandidates threshold olds news) := by
  intro c hc d hd hconf hkey
  rw [mem_similarCandidates] at hc hd
  rw [Candidate.conflicts_iff] at hconf
  simp only [Candidate.siblingKey, List.cons.injEq] at hkey
  obtain ⟨-, -, hmin, hmax, -⟩ := hkey
  have hold : c.old = d.old := holds hc.1 hd.1 (by omega)
  have hnew : c.new = d.new := hnews hc.2.1 hd.2.1 (by omega)
  have hscore : c.score = d.score := by rw [hc.2.2.1, hd.2.2.1, hold, hnew]
  cases c
  cases d
  simp_all

lemma bestFirst_pairSimilar (threshold : Binary64) (olds news : List Entry) :
    BestFirst (similarCandidates threshold olds news) (pairSimilar threshold olds news) :=
  (bestFirst_greedyFrom (pairwise_mergeSort_key Candidate.siblingKey _)).of_mem_iff fun _ =>
    List.mem_mergeSort.symm

lemma mem_candidates_of_mem_pairSimilar {c : Candidate}
    (hc : c ∈ pairSimilar threshold olds news) : c ∈ similarCandidates threshold olds news :=
  (bestFirst_pairSimilar threshold olds news).subset hc

/-- Pairing by similarity does not tell old from new. -/
lemma swap_mem_pairSimilar (holds : Set.InjOn Entry.seq {e | e ∈ olds})
    (hnews : Set.InjOn Entry.seq {e | e ∈ news}) {c : Candidate} :
    c.swap ∈ pairSimilar threshold news olds ↔ c ∈ pairSimilar threshold olds news := by
  have hsame : ∀ d, d ∈ similarCandidates threshold news olds ↔
      d ∈ (similarCandidates threshold olds news).map Candidate.swap := fun d => by
    rw [Candidate.mem_map_swap, ← swap_mem_similarCandidates]
  have hunique := (bestFirst_pairSimilar threshold news olds).mem_iff
    ((bestFirst_pairSimilar threshold olds news).swap.of_mem_iff hsame)
    (keysTellApart_similarCandidates hnews holds) (c := c.swap)
  rwa [Candidate.mem_map_swap, Candidate.swap_swap] at hunique

/-- Taking away entries that were left over does not change the pairs. -/
lemma mem_pairSimilar_filter (holds : (olds.map Entry.seq).Nodup)
    (hnews : (news.map Entry.seq).Nodup) {keepOld keepNew : Entry → Bool}
    (h : ∀ c ∈ pairSimilar threshold olds news, keepOld c.old = true ∧ keepNew c.new = true)
    {c : Candidate} :
    c ∈ pairSimilar threshold (olds.filter keepOld) (news.filter keepNew) ↔
      c ∈ pairSimilar threshold olds news := by
  refine (bestFirst_pairSimilar _ _ _).mem_iff
    ((bestFirst_pairSimilar threshold olds news).of_subset ?_ ?_) ?_
  · intro d hd
    rw [mem_similarCandidates, List.mem_filter, List.mem_filter] at hd
    exact mem_similarCandidates.2 ⟨hd.1.1, hd.2.1.1, hd.2.2⟩
  · intro d hd
    have hcand := mem_similarCandidates.1 (mem_candidates_of_mem_pairSimilar hd)
    rw [mem_similarCandidates, List.mem_filter, List.mem_filter]
    exact ⟨⟨hcand.1, (h d hd).1⟩, ⟨hcand.2.1, (h d hd).2⟩, hcand.2.2⟩
  · exact keysTellApart_similarCandidates
      (List.inj_on_of_nodup_map (holds.sublist (List.filter_sublist.map _)))
      (List.inj_on_of_nodup_map (hnews.sublist (List.filter_sublist.map _)))

/-! ## Links between siblings of one type -/

/-- The old entries with an identifier that pairing by keys leaves over. -/
def restOld (olds news : List Entry) : List Entry :=
  olds.filter fun e => e.isIdentified && !(pairByKey olds news).any fun p => p.1.seq == e.seq

/-- The new entries with an identifier that pairing by keys leaves over. -/
def restNew (olds news : List Entry) : List Entry :=
  news.filter fun e => e.isIdentified && !(pairByKey olds news).any fun p => p.2.seq == e.seq

lemma mem_restOld {e : Entry} : e ∈ restOld olds news ↔ e ∈ olds ∧ e.isIdentified = true ∧
    ∀ p ∈ pairByKey olds news, p.1.seq ≠ e.seq := by
  simp [restOld]

lemma mem_restNew {e : Entry} : e ∈ restNew olds news ↔ e ∈ news ∧ e.isIdentified = true ∧
    ∀ p ∈ pairByKey olds news, p.2.seq ≠ e.seq := by
  simp [restNew]

lemma restOld_swap (olds news : List Entry) : restOld news olds = restNew olds news := by
  refine List.filter_congr fun e _ => ?_
  rw [Bool.eq_iff_iff]
  simp only [Bool.and_eq_true, Bool.not_eq_true', List.any_eq_false, beq_iff_eq]
  refine and_congr_right fun _ => ⟨fun h p hp => ?_, fun h p hp => ?_⟩
  · exact h p.swap (swap_mem_pairByKey.2 hp)
  · exact h p.swap (swap_mem_pairByKey.2 hp)

lemma restNew_swap (olds news : List Entry) : restNew news olds = restOld olds news :=
  (restOld_swap news olds).symm

lemma mem_linkSiblings {l : Link} : l ∈ linkSiblings threshold olds news ↔
    l.kind = .exact ∧ (l.old, l.new) ∈ pairByKey olds news ∨
      l.kind = .similar ∧ ∃ c ∈ pairSimilar threshold (restOld olds news) (restNew olds news),
        c.old = l.old ∧ c.new = l.new := by
  rw [linkSiblings, ← restOld, ← restNew, List.mem_append, List.mem_map, List.mem_map]
  refine or_congr ⟨?_, ?_⟩ ⟨?_, ?_⟩
  · rintro ⟨p, hp, rfl⟩
    exact ⟨rfl, hp⟩
  · rintro ⟨hkind, hp⟩
    exact ⟨_, hp, by cases l; simp_all⟩
  · rintro ⟨c, hc, rfl⟩
    exact ⟨rfl, c, hc, rfl, rfl⟩
  · rintro ⟨hkind, c, hc, hold, hnew⟩
    exact ⟨c, hc, by cases l; simp_all⟩

lemma old_mem_of_mem_linkSiblings {l : Link} (hl : l ∈ linkSiblings threshold olds news) :
    l.old ∈ olds := by
  rcases mem_linkSiblings.1 hl with ⟨-, hp⟩ | ⟨-, c, hc, hold, -⟩
  · exact fst_mem_of_mem_pairByKey hp
  · rw [← hold]
    exact (mem_restOld.1 (mem_similarCandidates.1 (mem_candidates_of_mem_pairSimilar hc)).1).1

lemma new_mem_of_mem_linkSiblings {l : Link} (hl : l ∈ linkSiblings threshold olds news) :
    l.new ∈ news := by
  rcases mem_linkSiblings.1 hl with ⟨-, hp⟩ | ⟨-, c, hc, -, hnew⟩
  · exact snd_mem_of_mem_pairByKey hp
  · rw [← hnew]
    exact (mem_restNew.1 (mem_similarCandidates.1 (mem_candidates_of_mem_pairSimilar hc)).2.1).1

/-- Entries that pairing by keys leaves over have different identifiers: of two entries with the
same one, it would have taken one. -/
lemma isRenaming_of_mem_pairSimilar {c : Candidate}
    (hc : c ∈ pairSimilar threshold (restOld olds news) (restNew olds news)) :
    c.old.IsRenaming threshold c.new := by
  obtain ⟨hold, hnew, hscore, hreaches⟩ :=
    mem_similarCandidates.1 (mem_candidates_of_mem_pairSimilar hc)
  rw [mem_restOld] at hold
  rw [mem_restNew] at hnew
  refine ⟨?_, hscore ▸ hreaches⟩
  obtain ⟨a, ha⟩ := Option.isSome_iff_exists.1 hold.2.1
  obtain ⟨b, hb⟩ := Option.isSome_iff_exists.1 hnew.2.1
  refine ⟨a, b, ha, hb, ?_⟩
  rintro rfl
  have hkey := Entry.key_eq_of_identifier_eq hold.2.1 (ha.trans hb.symm)
  rcases mem_pairByKey_of_key_eq hold.1 hnew.1 hkey with ⟨p, hp, heq⟩ | ⟨p, hp, heq⟩
  · exact hold.2.2 p hp (heq ▸ rfl)
  · exact hnew.2.2 p hp (heq ▸ rfl)

/-- What joins two siblings: their keys, or their texts under different identifiers. -/
lemma reason_of_mem_linkSiblings {l : Link} (hl : l ∈ linkSiblings threshold olds news) :
    l.kind = .exact ∧ l.old.key = l.new.key ∨
      l.kind = .similar ∧ l.old.IsRenaming threshold l.new := by
  rcases mem_linkSiblings.1 hl with ⟨hkind, hp⟩ | ⟨hkind, c, hc, hold, hnew⟩
  · exact Or.inl ⟨hkind, key_eq_of_mem_pairByKey hp⟩
  · exact Or.inr ⟨hkind, hold ▸ hnew ▸ isRenaming_of_mem_pairSimilar hc⟩

/-- Siblings are joined at most once. -/
lemma oneToOne_linkSiblings (threshold : Binary64) (holds : (olds.map Entry.seq).Nodup)
    (hnews : (news.map Entry.seq).Nodup) :
    Links.OneToOne (linkSiblings threshold olds news) := by
  rw [linkSiblings, ← restOld, ← restNew, Links.OneToOne, List.pairwise_append, List.pairwise_map,
    List.pairwise_map]
  refine ⟨pairwise_pairByKey holds hnews, ?_, ?_⟩
  · refine (bestFirst_pairSimilar _ _ _).apart.imp fun {c d} hcd => ?_
    rwa [← Bool.not_eq_true, Candidate.conflicts_iff, not_or] at hcd
  · rw [List.forall_mem_map]
    intro p hp
    rw [List.forall_mem_map]
    intro c hc
    have hcand := mem_similarCandidates.1 (mem_candidates_of_mem_pairSimilar hc)
    exact ⟨(mem_restOld.1 hcand.1).2.2 p hp, (mem_restNew.1 hcand.2.1).2.2 p hp⟩

/-- **Two siblings of one type that fit are not both left free.** -/
theorem exists_mem_linkSiblings {old new : Entry} (hold : old ∈ olds) (hnew : new ∈ news)
    (hfits : old.Fits threshold new) : ∃ l ∈ linkSiblings threshold olds news,
      l.old.seq = old.seq ∨ l.new.seq = new.seq := by
  by_contra hfree
  push Not at hfree
  have hexact : ∀ p ∈ pairByKey olds news, p.1.seq ≠ old.seq ∧ p.2.seq ≠ new.seq :=
    fun p hp => hfree ⟨p.1, p.2, .exact⟩ (mem_linkSiblings.2 (Or.inl ⟨rfl, hp⟩))
  rcases hfits.2 with hkey | ⟨hido, hidn, hreaches⟩
  · rcases mem_pairByKey_of_key_eq hold hnew hkey with ⟨p, hp, rfl⟩ | ⟨p, hp, rfl⟩
    · exact (hexact p hp).1 rfl
    · exact (hexact p hp).2 rfl
  -- both are left over by their keys, so they are a candidate, and what blocks it takes one of them
  · have hcand : (⟨old, new, old.similarity threshold new⟩ : Candidate) ∈
        similarCandidates threshold (restOld olds news) (restNew olds news) :=
      mem_similarCandidates.2 ⟨mem_restOld.2 ⟨hold, hido, fun p hp => (hexact p hp).1⟩,
        mem_restNew.2 ⟨hnew, hidn, fun p hp => (hexact p hp).2⟩, rfl, hreaches⟩
    have hlink : ∀ c ∈ pairSimilar threshold (restOld olds news) (restNew olds news),
        c.old.seq ≠ old.seq ∧ c.new.seq ≠ new.seq := fun c hc =>
      hfree ⟨c.old, c.new, .similar⟩ (mem_linkSiblings.2 (Or.inr ⟨rfl, c, hc, rfl, rfl⟩))
    obtain ⟨c, hc, hconf, -⟩ := (bestFirst_pairSimilar threshold _ _).blocked _ hcand
      fun hin => (hlink _ hin).1 rfl
    rcases Candidate.conflicts_iff.1 hconf with hseq | hseq
    · exact (hlink c hc).1 hseq.symm
    · exact (hlink c hc).2 hseq.symm

/-- Linking siblings does not tell old from new. -/
lemma swap_mem_linkSiblings (holds : (olds.map Entry.seq).Nodup)
    (hnews : (news.map Entry.seq).Nodup) {l : Link} :
    l.swap ∈ linkSiblings threshold news olds ↔ l ∈ linkSiblings threshold olds news := by
  have hswap : ∀ c, c.swap ∈ pairSimilar threshold (restNew olds news) (restOld olds news) ↔
      c ∈ pairSimilar threshold (restOld olds news) (restNew olds news) := fun _ =>
    swap_mem_pairSimilar (List.inj_on_of_nodup_map (holds.sublist (List.filter_sublist.map _)))
      (List.inj_on_of_nodup_map (hnews.sublist (List.filter_sublist.map _)))
  rw [mem_linkSiblings, mem_linkSiblings, restOld_swap olds news, restNew_swap olds news]
  refine or_congr (and_congr_right fun _ => ?_) (and_congr_right fun _ => ⟨?_, ?_⟩)
  · exact swap_mem_pairByKey (p := (l.old, l.new))
  · rintro ⟨c, hc, hnew, hold⟩
    exact ⟨c.swap, (hswap c.swap).1 hc, hold, hnew⟩
  · rintro ⟨c, hc, hold, hnew⟩
    exact ⟨c.swap, (hswap c).2 hc, hnew, hold⟩

end

end TreeDiff
