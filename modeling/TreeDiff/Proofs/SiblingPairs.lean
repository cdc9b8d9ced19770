/-
# Pairs of renamed siblings

The pairs that are made by similarity can be described without saying how they are found.  They form
the only matching among similar enough pairs in which a pair that was not made is blocked: one of
its entries is in a pair of the matching that does not come later.  So it makes no difference in
which order the entries are listed, nor which of the two lists is called old.

Since similarity is what pairs are ordered by first, a pair is blocked by pairs that are at least as
similar.  A higher threshold therefore takes away the pairs that do not reach it and changes no
other.
-/
import Mathlib.Data.List.Dedup
import TreeDiff.Proofs.Cutoffs
import TreeDiff.Proofs.Numbering
import TreeDiff.Proofs.Siblings

namespace TreeDiff

/-- The pairs that are made by similarity. -/
def similarPairs (threshold : Binary64) (olds news : List Entry) : List (Entry × Entry) :=
  (pairSimilar threshold olds news).map fun c => (c.old, c.new)

/-- A pair of entries with its similarity. -/
def candidateOf (threshold : Binary64) (p : Entry × Entry) : Candidate :=
  ⟨p.1, p.2, p.1.similarity threshold p.2⟩

/-- What pairs are ordered by: the similarity, the distance of the ordinals, the smaller and the
greater of the two numbers. -/
def pairKey (threshold : Binary64) (p : Entry × Entry) : List Int :=
  (candidateOf threshold p).siblingKey

/-- A matching among the pairs that reach the threshold, in which every other such pair has an entry
in a pair that does not come after it. -/
structure BestMatching (threshold : Binary64) (olds news : List Entry)
    (chosen : Set (Entry × Entry)) : Prop where
  candidate : ∀ p ∈ chosen, p.1 ∈ olds ∧ p.2 ∈ news ∧
    reaches threshold (p.1.similarity threshold p.2) = true
  matching : ∀ p ∈ chosen, ∀ q ∈ chosen, p.1 = q.1 ∨ p.2 = q.2 → p = q
  blocked : ∀ o ∈ olds, ∀ n ∈ news, reaches threshold (o.similarity threshold n) = true →
    (o, n) ∉ chosen → ∃ p ∈ chosen, (p.1 = o ∨ p.2 = n) ∧
      lexNotAfter (pairKey threshold p) (pairKey threshold (o, n)) = true

section

variable {threshold more : Binary64} {olds news : List Entry} {p q : Entry × Entry}
  {c d : Candidate} {chosen : Set (Entry × Entry)}

/-! ## Pairs and candidates -/

lemma candidateOf_mem_similarCandidates : candidateOf threshold p ∈
    similarCandidates threshold olds news ↔ p.1 ∈ olds ∧ p.2 ∈ news ∧
      reaches threshold (p.1.similarity threshold p.2) = true := by
  rw [mem_similarCandidates]
  simp [candidateOf]

lemma eq_candidateOf (hc : c ∈ similarCandidates threshold olds news) :
    c = candidateOf threshold (c.old, c.new) := by
  rw [candidateOf, ← (mem_similarCandidates.1 hc).2.2.1]

lemma mem_similarPairs : p ∈ similarPairs threshold olds news ↔
    candidateOf threshold p ∈ pairSimilar threshold olds news := by
  rw [similarPairs, List.mem_map]
  constructor
  · rintro ⟨c, hc, rfl⟩
    rwa [← eq_candidateOf (mem_candidates_of_mem_pairSimilar hc)]
  · intro hp
    exact ⟨_, hp, rfl⟩

/-- Candidates that are found in order need not be sorted. -/
lemma pairSimilar_of_sorted (h : (similarCandidates threshold olds news).Pairwise fun c d =>
    lexNotAfter c.siblingKey d.siblingKey = true) :
    pairSimilar threshold olds news = greedyFrom [] (similarCandidates threshold olds news) := by
  rw [pairSimilar, List.mergeSort_of_pairwise h]

/-! ## The only best matching -/

section

variable (holds : Set.InjOn Entry.seq {e | e ∈ olds}) (hnews : Set.InjOn Entry.seq {e | e ∈ news})

include holds hnews in
/-- Candidates that share an entry are told so by their entries, not only by their numbers. -/
lemma conflicts_iff_of_mem (hc : c ∈ similarCandidates threshold olds news)
    (hd : d ∈ similarCandidates threshold olds news) :
    c.conflicts d = true ↔ c.old = d.old ∨ c.new = d.new := by
  rw [mem_similarCandidates] at hc hd
  rw [Candidate.conflicts_iff]
  exact or_congr (holds.eq_iff hc.1 hd.1) (hnews.eq_iff hc.2.1 hd.2.1)

include holds hnews in
lemma bestMatching_similarPairs :
    BestMatching threshold olds news {p | p ∈ similarPairs threshold olds news} := by
  have hbest := bestFirst_pairSimilar threshold olds news
  refine ⟨fun p hp => ?_, fun p hp q hq hshare => ?_, fun o ho n hn hreaches hskip => ?_⟩
  · exact candidateOf_mem_similarCandidates.1 (hbest.subset (mem_similarPairs.1 hp))
  · have hp := mem_similarPairs.1 hp
    have hq := mem_similarPairs.1 hq
    have hconf := (conflicts_iff_of_mem holds hnews (hbest.subset hp) (hbest.subset hq)).2 hshare
    have heq := hbest.eq_of_conflicts hp hq hconf
    exact Prod.ext (congrArg Candidate.old heq) (congrArg Candidate.new heq)
  · have hcand : candidateOf threshold (o, n) ∈ similarCandidates threshold olds news :=
      candidateOf_mem_similarCandidates.2 ⟨ho, hn, hreaches⟩
    obtain ⟨d, hd, hconf, hle⟩ := hbest.blocked _ hcand fun hin => hskip (mem_similarPairs.2 hin)
    have hdcand := hbest.subset hd
    have hshare := (conflicts_iff_of_mem holds hnews hcand hdcand).1 hconf
    refine ⟨(d.old, d.new), ?_, hshare.imp Eq.symm Eq.symm, ?_⟩
    · exact mem_similarPairs.2 (eq_candidateOf hdcand ▸ hd)
    · rw [pairKey, ← eq_candidateOf hdcand]
      exact hle

include holds hnews in
/-- The candidates of the pairs of a best matching are a choice that takes the best first. -/
lemma BestMatching.exists_bestFirst (h : BestMatching threshold olds news chosen) :
    ∃ cs, BestFirst (similarCandidates threshold olds news) cs ∧
      ∀ p, candidateOf threshold p ∈ cs ↔ p ∈ chosen := by
  classical
  let cs := ((similarCandidates threshold olds news).filter fun c => (c.old, c.new) ∈ chosen).dedup
  have hmem : ∀ c, c ∈ cs ↔
      c ∈ similarCandidates threshold olds news ∧ (c.old, c.new) ∈ chosen := by
    intro c
    rw [List.mem_dedup, List.mem_filter, decide_eq_true_eq]
  have hin : ∀ p, candidateOf threshold p ∈ cs ↔ p ∈ chosen := by
    intro p
    rw [hmem, candidateOf_mem_similarCandidates]
    exact ⟨fun hp => hp.2, fun hp => ⟨h.candidate p hp, hp⟩⟩
  refine ⟨cs, ⟨fun c hc => ((hmem c).1 hc).1, ?_, fun c hc hskip => ?_⟩, hin⟩
  · refine (List.nodup_dedup _).imp_of_mem fun {c d} hc hd hne => ?_
    obtain ⟨hc, hcin⟩ := (hmem c).1 hc
    obtain ⟨hd, hdin⟩ := (hmem d).1 hd
    rw [← Bool.not_eq_true, conflicts_iff_of_mem holds hnews hc hd]
    intro hshare
    have heq : (c.old, c.new) = (d.old, d.new) := h.matching _ hcin _ hdin hshare
    exact hne (by rw [eq_candidateOf hc, eq_candidateOf hd, heq])
  · have hcand := mem_similarCandidates.1 hc
    have hout : (c.old, c.new) ∉ chosen := fun hp => hskip ((hmem c).2 ⟨hc, hp⟩)
    obtain ⟨p, hp, hshare, hle⟩ :=
      h.blocked c.old hcand.1 c.new hcand.2.1 (hcand.2.2.1 ▸ hcand.2.2.2) hout
    refine ⟨candidateOf threshold p, (hin p).2 hp, ?_, ?_⟩
    · have hpcand := candidateOf_mem_similarCandidates.2 (h.candidate p hp)
      exact (conflicts_iff_of_mem holds hnews hc hpcand).2 (hshare.imp Eq.symm Eq.symm)
    · rw [eq_candidateOf hc]
      exact hle

include holds hnews in
/-- **There is one best matching,** and these are the pairs that are made. -/
lemma bestMatching_iff : BestMatching threshold olds news chosen ↔
    chosen = {p | p ∈ similarPairs threshold olds news} := by
  constructor
  · intro h
    obtain ⟨cs, hcs, hin⟩ := h.exists_bestFirst holds hnews
    ext p
    rw [← hin p, hcs.mem_iff (bestFirst_pairSimilar threshold olds news)
      (keysTellApart_similarCandidates holds hnews), ← mem_similarPairs]
    exact Iff.rfl
  · rintro rfl
    exact bestMatching_similarPairs holds hnews

include holds hnews in
/-- The order in which the entries are listed makes no difference. -/
lemma mem_similarPairs_of_perm {olds' news' : List Entry} (hperm : olds'.Perm olds)
    (hperm' : news'.Perm news) :
    p ∈ similarPairs threshold olds' news' ↔ p ∈ similarPairs threshold olds news := by
  have hsame : ∀ c, c ∈ similarCandidates threshold olds news ↔
      c ∈ similarCandidates threshold olds' news' := fun c => by
    rw [mem_similarCandidates, mem_similarCandidates, hperm.mem_iff, hperm'.mem_iff]
  rw [mem_similarPairs, mem_similarPairs]
  exact ((bestFirst_pairSimilar threshold olds' news').of_mem_iff hsame).mem_iff
    (bestFirst_pairSimilar threshold olds news) (keysTellApart_similarCandidates holds hnews)

include holds hnews in
/-- Pairs do not tell old from new. -/
lemma swap_mem_similarPairs :
    p.swap ∈ similarPairs threshold news olds ↔ p ∈ similarPairs threshold olds news := by
  have hswap : candidateOf threshold p.swap = (candidateOf threshold p).swap := by
    simp [candidateOf, Candidate.swap, Entry.similarity_comm threshold p.1]
  rw [mem_similarPairs, mem_similarPairs, hswap, swap_mem_pairSimilar holds hnews]

end

/-! ## A higher threshold -/

/-- The similarity of a candidate is that with nothing hidden. -/
lemma mem_similarCandidates_iff_full : c ∈ similarCandidates threshold olds news ↔
    c.old ∈ olds ∧ c.new ∈ news ∧
      c.score = Text.fullSimilarity c.old.outline.comparedText c.new.outline.comparedText ∧
      reaches threshold c.score = true := by
  have hup := Text.isUpward_reaches threshold
  rw [mem_similarCandidates, Entry.similarity]
  refine and_congr_right fun _ => and_congr_right fun _ => ⟨?_, ?_⟩
  · rintro ⟨hscore, hreaches⟩
    refine ⟨?_, hreaches⟩
    rw [hscore, Text.passes_similarity hup] at hreaches
    rw [hscore, Text.similarity_eq_of_passes hup hreaches]
  · rintro ⟨hscore, hreaches⟩
    refine ⟨?_, hreaches⟩
    rw [hscore] at hreaches
    rw [hscore, Text.similarity_eq_of_passes hup hreaches]

/-- The candidates for a higher threshold are those that reach it. -/
lemma mem_similarCandidates_of_le (h : threshold.le more = true) :
    c ∈ similarCandidates more olds news ↔
      c ∈ similarCandidates threshold olds news ∧ reaches more c.score = true := by
  rw [mem_similarCandidates_iff_full, mem_similarCandidates_iff_full]
  constructor
  · rintro ⟨hold, hnew, hscore, hreaches⟩
    exact ⟨⟨hold, hnew, hscore, Binary64.le_trans h hreaches⟩, hreaches⟩
  · rintro ⟨⟨hold, hnew, hscore, -⟩, hreaches⟩
    exact ⟨hold, hnew, hscore, hreaches⟩

/-- What does not come after a candidate is at least as similar. -/
lemma reaches_of_siblingKey_le (hle : lexNotAfter d.siblingKey c.siblingKey = true)
    (hc : reaches threshold c.score = true) : reaches threshold d.score = true := by
  obtain ⟨x, y, hx, hy, hxy⟩ := Binary64.le_iff.1 hc
  obtain ⟨z, hz⟩ : ∃ z, d.score.toBinary64.signedUnits? = some z := by
    rw [Text.Ratio.toBinary64, Binary64.ofRatio, Binary64.signedUnits?_ofUnits]
    exact ⟨_, rfl⟩
  refine Binary64.le_iff.2 ⟨x, z, hx, hz, ?_⟩
  rw [Candidate.siblingKey, Candidate.siblingKey, lexNotAfter_cons, Candidate.scoreKey,
    Candidate.scoreKey, hy, hz] at hle
  simp only [Option.getD_some] at hle
  omega

/-- The pairs for a higher threshold take the best first among its candidates: what blocks a
candidate is at least as similar, so it reaches the threshold too. -/
lemma bestFirst_filter_pairSimilar (h : threshold.le more = true) :
    BestFirst (similarCandidates more olds news)
      ((pairSimilar threshold olds news).filter fun c => reaches more c.score) := by
  have hbest := bestFirst_pairSimilar threshold olds news
  refine ⟨fun c hc => ?_, hbest.apart.filter _, fun c hc hskip => ?_⟩
  · rw [List.mem_filter] at hc
    exact (mem_similarCandidates_of_le h).2 ⟨hbest.subset hc.1, hc.2⟩
  · obtain ⟨hcand, hreaches⟩ := (mem_similarCandidates_of_le h).1 hc
    obtain ⟨d, hd, hconf, hle⟩ :=
      hbest.blocked c hcand fun hin => hskip (List.mem_filter.2 ⟨hin, hreaches⟩)
    exact ⟨d, List.mem_filter.2 ⟨hd, reaches_of_siblingKey_le hle hreaches⟩, hconf, hle⟩

/-- The pairs for a higher threshold are those that reach it. -/
lemma mem_similarPairs_of_le (holds : Set.InjOn Entry.seq {e | e ∈ olds})
    (hnews : Set.InjOn Entry.seq {e | e ∈ news}) (h : threshold.le more = true) :
    p ∈ similarPairs more olds news ↔ p ∈ similarPairs threshold olds news ∧
      reaches more (p.1.similarity threshold p.2) = true := by
  have hcand : ∀ c, c ∈ pairSimilar more olds news ↔
      c ∈ pairSimilar threshold olds news ∧ reaches more c.score = true := fun c => by
    rw [(bestFirst_pairSimilar more olds news).mem_iff (bestFirst_filter_pairSimilar h)
      (keysTellApart_similarCandidates holds hnews), List.mem_filter]
  rw [similarPairs, similarPairs, List.mem_map, List.mem_map]
  constructor
  · rintro ⟨c, hc, rfl⟩
    obtain ⟨hc, hreaches⟩ := (hcand c).1 hc
    have hscore := (mem_similarCandidates.1 (mem_candidates_of_mem_pairSimilar hc)).2.2.1
    exact ⟨⟨c, hc, rfl⟩, hscore ▸ hreaches⟩
  · rintro ⟨⟨c, hc, rfl⟩, hreaches⟩
    have hscore := (mem_similarCandidates.1 (mem_candidates_of_mem_pairSimilar hc)).2.2.1
    exact ⟨c, (hcand c).2 ⟨hc, hscore ▸ hreaches⟩, rfl⟩

end

/-! ## Entries of two trees -/

/-- Entries of a tree are told apart by their numbers. -/
lemma Entry.injOn_seq_of_subset {o : Outline} {entries : List Entry}
    (h : entries ⊆ (Entry.root o).preorder) : Set.InjOn Entry.seq {e | e ∈ entries} :=
  fun _ ha _ hb => (Entry.wellPlaced_root o).eq_of_seq (h ha) (h hb)

/-- **Renamed siblings are paired by the only best matching.**  For any entries of two trees, the
pairs that are made are the only matching among the pairs that reach the threshold in which a pair
that was not made has an entry in one that does not come later.  Hence they depend neither on the
order in which the entries are listed nor on which tree is called old. -/
theorem bestMatching_iff_eq_similarPairs (threshold : Binary64) (old new : Outline)
    (olds news : List Entry) (holds : olds ⊆ (Entry.root old).preorder)
    (hnews : news ⊆ (Entry.root new).preorder) :
    (∀ chosen : Set (Entry × Entry), BestMatching threshold olds news chosen ↔
      chosen = {p | p ∈ similarPairs threshold olds news}) ∧
    (∀ olds' news' : List Entry, olds'.Perm olds → news'.Perm news → ∀ p,
      p ∈ similarPairs threshold olds' news' ↔ p ∈ similarPairs threshold olds news) ∧
    ∀ p : Entry × Entry,
      p.swap ∈ similarPairs threshold news olds ↔ p ∈ similarPairs threshold olds news := by
  have holds := Entry.injOn_seq_of_subset holds
  have hnews := Entry.injOn_seq_of_subset hnews
  refine ⟨fun chosen => bestMatching_iff holds hnews, fun olds' news' hperm hperm' p => ?_,
    fun p => swap_mem_similarPairs holds hnews⟩
  exact mem_similarPairs_of_perm holds hnews hperm hperm'

/-- A module of two functions, given by their names and texts. -/
def Outline.functionPair (a b textA textB : String) : Outline :=
  ⟨"module", [], "", ⟨0, 0⟩, ⟨0, 0⟩,
    [⟨"function", [(.identifier, a)], textA, ⟨0, 0⟩, ⟨0, 0⟩, []⟩,
      ⟨"function", [(.identifier, b)], textB, ⟨0, 0⟩, ⟨0, 0⟩, []⟩]⟩

/-- The entries of the two functions. -/
def Entry.functionPair (a b textA textB : String) : List Entry :=
  (Entry.root (.functionPair a b textA textB)).children

lemma Entry.functionPair_subset (a b textA textB : String) :
    Entry.functionPair a b textA textB ⊆ (Entry.root (.functionPair a b textA textB)).preorder :=
  fun _ => Entry.child_mem_preorder (Entry.mem_preorder_self _)

/-- All four pairs of the functions are equally similar, and those with the same ordinal are
made. -/
theorem similarPairs_twins :
    Entry.functionPair "f" "g" "x" "x" ⊆ (Entry.root (.functionPair "f" "g" "x" "x")).preorder ∧
    Entry.functionPair "h" "k" "x" "x" ⊆ (Entry.root (.functionPair "h" "k" "x" "x")).preorder ∧
    (∀ o ∈ Entry.functionPair "f" "g" "x" "x", ∀ n ∈ Entry.functionPair "h" "k" "x" "x",
      reaches .one (o.similarity .one n) = true) ∧
    ∀ p, p ∈ similarPairs .one (Entry.functionPair "f" "g" "x" "x")
        (Entry.functionPair "h" "k" "x" "x") ↔ p.1 ∈ Entry.functionPair "f" "g" "x" "x" ∧
      p.2 ∈ Entry.functionPair "h" "k" "x" "x" ∧ p.1.ordinal = p.2.ordinal := by
  have holds := Entry.functionPair_subset "f" "g" "x" "x"
  have hnews := Entry.functionPair_subset "h" "k" "x" "x"
  have hreaches : ∀ o ∈ Entry.functionPair "f" "g" "x" "x",
      ∀ n ∈ Entry.functionPair "h" "k" "x" "x",
      reaches .one (o.similarity .one n) = true := by decide +kernel
  have hordinal : (∀ o ∈ Entry.functionPair "f" "g" "x" "x",
      ∀ o' ∈ Entry.functionPair "f" "g" "x" "x", o.ordinal = o'.ordinal → o.seq = o'.seq) ∧
      ∀ n ∈ Entry.functionPair "h" "k" "x" "x", ∀ n' ∈ Entry.functionPair "h" "k" "x" "x",
        n.ordinal = n'.ordinal → n.seq = n'.seq := by decide +kernel
  have hblocked : ∀ o ∈ Entry.functionPair "f" "g" "x" "x",
      ∀ n ∈ Entry.functionPair "h" "k" "x" "x",
      ∃ m ∈ Entry.functionPair "h" "k" "x" "x", o.ordinal = m.ordinal ∧
        lexNotAfter (pairKey .one (o, m)) (pairKey .one (o, n)) = true := by decide +kernel
  have hbest : BestMatching .one (Entry.functionPair "f" "g" "x" "x")
      (Entry.functionPair "h" "k" "x" "x") {p | p.1 ∈ Entry.functionPair "f" "g" "x" "x" ∧
        p.2 ∈ Entry.functionPair "h" "k" "x" "x" ∧ p.1.ordinal = p.2.ordinal} := by
    refine ⟨fun p ⟨ho, hn, _⟩ => ⟨ho, hn, hreaches _ ho _ hn⟩, ?_, fun o ho n hn _ _ => ?_⟩
    · rintro ⟨o, n⟩ ⟨ho, hn, hp⟩ ⟨o', n'⟩ ⟨ho', hn', hq⟩ hshare
      have hsame : o.ordinal = o'.ordinal ∧ n.ordinal = n'.ordinal := by
        rcases hshare with rfl | rfl
        · exact ⟨rfl, hp.symm.trans hq⟩
        · exact ⟨hp.trans hq.symm, rfl⟩
      exact Prod.ext (Entry.injOn_seq_of_subset holds ho ho' (hordinal.1 o ho o' ho' hsame.1))
        (Entry.injOn_seq_of_subset hnews hn hn' (hordinal.2 n hn n' hn' hsame.2))
    · obtain ⟨m, hm, hsame, hle⟩ := hblocked o ho n hn
      exact ⟨(o, m), ⟨ho, hm, hsame⟩, Or.inl rfl, hle⟩
  have hpairs := ((bestMatching_iff_eq_similarPairs .one _ _ _ _ holds hnews).1 _).1 hbest
  exact ⟨holds, hnews, hreaches, fun p => (Set.ext_iff.1 hpairs p).symm⟩

/-- **A higher threshold only dissolves pairs.**  For any entries of two trees, every pair that is
made with the higher threshold is made with the lower one, every pair made with the lower one that
reaches the higher one is made with it, and no entry gets another partner. -/
theorem similarPairs_of_higher (threshold more : Binary64) (h : threshold.le more = true)
    (old new : Outline) (olds news : List Entry) (holds : olds ⊆ (Entry.root old).preorder)
    (hnews : news ⊆ (Entry.root new).preorder) :
    (∀ p ∈ similarPairs more olds news, p ∈ similarPairs threshold olds news) ∧
    (∀ p ∈ similarPairs threshold olds news,
      reaches more (p.1.similarity threshold p.2) = true → p ∈ similarPairs more olds news) ∧
    ∀ p ∈ similarPairs more olds news, ∀ q ∈ similarPairs threshold olds news,
      p.1 = q.1 ∨ p.2 = q.2 → p = q := by
  have holds := Entry.injOn_seq_of_subset holds
  have hnews := Entry.injOn_seq_of_subset hnews
  have hfewer : ∀ p ∈ similarPairs more olds news, p ∈ similarPairs threshold olds news :=
    fun p hp => ((mem_similarPairs_of_le holds hnews h).1 hp).1
  refine ⟨hfewer, fun p hp hreaches => ?_, fun p hp q hq hshare => ?_⟩
  · exact (mem_similarPairs_of_le holds hnews h).2 ⟨hp, hreaches⟩
  · exact (bestMatching_similarPairs holds hnews).matching p (hfewer p hp) q hq hshare

/-- One function keeps its text and is paired with every threshold up to one, the other one changes
a quarter of its text. -/
theorem similarPairs_twoTexts :
    (Binary64.ofRatio false 1 2).le .one = true ∧
    Entry.functionPair "f" "g" "abcd" "wxyz" ⊆
      (Entry.root (.functionPair "f" "g" "abcd" "wxyz")).preorder ∧
    Entry.functionPair "h" "k" "abcd" "wxyy" ⊆
      (Entry.root (.functionPair "h" "k" "abcd" "wxyy")).preorder ∧
    ∃ p ∈ similarPairs (.ofRatio false 1 2) (Entry.functionPair "f" "g" "abcd" "wxyz")
        (Entry.functionPair "h" "k" "abcd" "wxyy"),
      ∃ q ∈ similarPairs (.ofRatio false 1 2) (Entry.functionPair "f" "g" "abcd" "wxyz")
          (Entry.functionPair "h" "k" "abcd" "wxyy"),
        p ∈ similarPairs .one (Entry.functionPair "f" "g" "abcd" "wxyz")
          (Entry.functionPair "h" "k" "abcd" "wxyy") ∧
        q ∉ similarPairs .one (Entry.functionPair "f" "g" "abcd" "wxyz")
          (Entry.functionPair "h" "k" "abcd" "wxyy") := by
  have holds := Entry.functionPair_subset "f" "g" "abcd" "wxyz"
  have hnews := Entry.functionPair_subset "h" "k" "abcd" "wxyy"
  have hle : (Binary64.ofRatio false 1 2).le .one = true := by decide +kernel
  have hsorted : (similarCandidates (.ofRatio false 1 2) (Entry.functionPair "f" "g" "abcd" "wxyz")
      (Entry.functionPair "h" "k" "abcd" "wxyy")).Pairwise fun c d =>
        lexNotAfter c.siblingKey d.siblingKey = true := by decide +kernel
  have hpairs : (∃ c ∈ greedyFrom [] (similarCandidates (.ofRatio false 1 2)
      (Entry.functionPair "f" "g" "abcd" "wxyz") (Entry.functionPair "h" "k" "abcd" "wxyy")),
        reaches .one (c.old.similarity (.ofRatio false 1 2) c.new) = true) ∧
      ∃ c ∈ greedyFrom [] (similarCandidates (.ofRatio false 1 2)
        (Entry.functionPair "f" "g" "abcd" "wxyz") (Entry.functionPair "h" "k" "abcd" "wxyy")),
        reaches .one (c.old.similarity .one c.new) = false := by decide +kernel
  rw [← pairSimilar_of_sorted hsorted] at hpairs
  obtain ⟨⟨c, hc, hreaches⟩, d, hd, hfalse⟩ := hpairs
  obtain ⟨-, hmade, -⟩ := similarPairs_of_higher _ .one hle _ _ _ _ holds hnews
  refine ⟨hle, holds, hnews, _, List.mem_map_of_mem hc, _, List.mem_map_of_mem hd,
    hmade _ (List.mem_map_of_mem hc) hreaches, fun hq => ?_⟩
  have hcand := mem_candidates_of_mem_pairSimilar (mem_similarPairs.1 hq)
  exact absurd (candidateOf_mem_similarCandidates.1 hcand).2.2 (by simp [hfalse])

end TreeDiff
