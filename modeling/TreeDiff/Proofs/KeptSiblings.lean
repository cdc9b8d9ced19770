/-
# Siblings that stay

Two rows of siblings of one type may have a part in common: entries that stand in the same order in
both rows and keep their keys.  If the other entries of a row have keys that do not occur in the
other row, then pairing by keys joins each entry that stays with itself, and pairing by similarity
is left with the others.  Siblings of one type are numbered in their order, so a row that stays as a
whole keeps its ordinals.
-/
import TreeDiff.Proofs.Children

namespace TreeDiff

/-! ## Ordinals -/

namespace Entry

/-- The siblings of one type are numbered one after the other. -/
lemma map_ordinal_ofOutlines (parent depth : Nat) (path : String) (seq : Nat)
    (earlier : List String) (type : String) (os : List Outline) :
    (ofType type (ofOutlines parent depth path seq earlier os)).map ordinal =
      List.range' (earlier.count type)
        (ofType type (ofOutlines parent depth path seq earlier os)).length := by
  induction os generalizing seq earlier with
  | nil => rfl
  | cons o rest ih =>
    have hrest := ih (seq + o.size) (o.type :: earlier)
    have htype :
        (ofOutline seq (some parent) (earlier.count o.type) depth path o).type = o.type := by
      cases o
      rfl
    have hordinal : (ofOutline seq (some parent) (earlier.count o.type) depth path o).ordinal =
        earlier.count o.type := by
      cases o
      rfl
    by_cases heq : o.type = type
    · rw [ofOutlines, ofType, List.filter_cons_of_pos (by simpa [htype] using heq), ← ofType,
        List.map_cons, hrest, List.length_cons, List.range'_succ, hordinal, heq,
        List.count_cons_self]
    · rw [ofOutlines, ofType, List.filter_cons_of_neg (by simpa [htype] using heq), ← ofType, hrest,
        List.count_cons_of_ne heq]

lemma map_ordinal_ofType {o : Outline} {p : Entry} (hp : p ∈ (root o).preorder) (type : String) :
    (ofType type p.children).map ordinal = List.range (ofType type p.children).length := by
  rw [children_of_mem_root hp, map_ordinal_ofOutlines, List.count_nil, List.range_eq_range']

/-- A row that stays as a whole keeps its ordinals. -/
lemma ordinal_eq_of_row {old new : Outline} {p q e : Entry} {f : Entry → Entry} {type : String}
    (hp : p ∈ (root old).preorder) (hq : q ∈ (root new).preorder)
    (hrow : ofType type q.children = (ofType type p.children).map f)
    (he : e ∈ ofType type p.children) : (f e).ordinal = e.ordinal := by
  have hordinals := map_ordinal_ofType hq type
  rw [hrow, List.length_map, List.map_map, ← map_ordinal_ofType hp type] at hordinals
  exact List.map_inj_left.1 hordinals e he

end Entry

/-! ## Rows of which a part stays -/

/-- Two rows of siblings of one type.  Those that are to be kept stand in the same order in both
rows and have the same keys, and the others have keys that do not occur in the other row. -/
structure KeptRow (olds news : List Entry) (keepOld keepNew : Entry → Bool) (f : Entry → Entry) :
    Prop where
  kept : news.filter keepNew = (olds.filter keepOld).map f
  key_eq : ∀ e ∈ olds, keepOld e = true → (f e).key = e.key
  old_key_ne : ∀ o ∈ olds, keepOld o = false → ∀ n ∈ news, o.key ≠ n.key
  new_key_ne : ∀ n ∈ news, keepNew n = false → ∀ o ∈ olds, o.key ≠ n.key

/-- The entries of a row that have an identifier and are not to be kept. -/
def leftOver (keep : Entry → Bool) (row : List Entry) : List Entry :=
  row.filter fun e => e.isIdentified && !keep e

lemma mem_leftOver {keep : Entry → Bool} {row : List Entry} {e : Entry} :
    e ∈ leftOver keep row ↔ e ∈ row ∧ e.isIdentified = true ∧ keep e = false := by
  simp [leftOver]

section

variable {threshold : Binary64} {olds news : List Entry} {keepOld keepNew : Entry → Bool}
  {f : Entry → Entry} {l : Link}

/-- Pairing a row with itself by keys joins each entry with itself. -/
lemma mem_pairByKey_map (hkey : ∀ e ∈ olds, (f e).key = e.key) {q : Entry × Entry} :
    q ∈ pairByKey olds (olds.map f) ↔ q.1 ∈ olds ∧ q.2 = f q.1 := by
  have hrow : withKey q.1.key (olds.map f) = (withKey q.1.key olds).map f := by
    rw [withKey, withKey, List.filter_map]
    refine congrArg (List.map f) (List.filter_congr fun e he => ?_)
    rw [Function.comp_apply, hkey e he]
  rw [mem_pairByKey, hrow, ← List.map_prod_left_eq_zip, List.mem_map]
  constructor
  · rintro ⟨e, he, hq⟩
    rw [← hq]
    exact ⟨(mem_withKey.1 he).1, rfl⟩
  · rintro ⟨he, hq⟩
    exact ⟨q.1, mem_withKey.2 ⟨he, rfl⟩, by rw [← hq]⟩

namespace KeptRow

/-- What pairing by keys joins: the entries that are kept, each with itself. -/
lemma mem_pairByKey (h : KeptRow olds news keepOld keepNew f) {q : Entry × Entry} :
    q ∈ pairByKey olds news ↔ q.1 ∈ olds ∧ keepOld q.1 = true ∧ q.2 = f q.1 := by
  have hpairs : ∀ p ∈ pairByKey olds news, keepOld p.1 = true ∧ keepNew p.2 = true := by
    intro p hp
    have hkey := key_eq_of_mem_pairByKey hp
    have hold := fst_mem_of_mem_pairByKey hp
    have hnew := snd_mem_of_mem_pairByKey hp
    constructor
    · by_contra hkeep
      exact h.old_key_ne p.1 hold (Bool.eq_false_iff.2 hkeep) p.2 hnew hkey
    · by_contra hkeep
      exact h.new_key_ne p.2 hnew (Bool.eq_false_iff.2 hkeep) p.1 hold hkey
  rw [← mem_pairByKey_filter hpairs, h.kept, mem_pairByKey_map fun e he =>
    h.key_eq e (List.mem_filter.1 he).1 (List.mem_filter.1 he).2, List.mem_filter, and_assoc]

lemma restOld_eq (h : KeptRow olds news keepOld keepNew f) (holds : (olds.map Entry.seq).Nodup) :
    restOld olds news = leftOver keepOld olds := by
  refine List.filter_congr fun e he => congrArg _ (congrArg _ ?_)
  rw [Bool.eq_iff_iff, List.any_eq_true]
  constructor
  · rintro ⟨p, hp, hseq⟩
    obtain ⟨hold, hkeep, -⟩ := h.mem_pairByKey.1 hp
    rwa [← List.inj_on_of_nodup_map holds hold he (beq_iff_eq.1 hseq)]
  · intro hkeep
    exact ⟨(e, f e), h.mem_pairByKey.2 ⟨he, hkeep, rfl⟩, beq_self_eq_true _⟩

lemma restNew_eq (h : KeptRow olds news keepOld keepNew f) (hnews : (news.map Entry.seq).Nodup) :
    restNew olds news = leftOver keepNew news := by
  refine List.filter_congr fun n hn => congrArg _ (congrArg _ ?_)
  have hmem : ∀ e, e ∈ news.filter keepNew ↔ ∃ o, (o ∈ olds ∧ keepOld o = true) ∧ f o = e := by
    intro e
    rw [h.kept, List.mem_map]
    simp only [List.mem_filter]
  rw [Bool.eq_iff_iff, List.any_eq_true]
  constructor
  · rintro ⟨p, hp, hseq⟩
    obtain ⟨hold, hkeep, hnew⟩ := h.mem_pairByKey.1 hp
    have hkept := List.mem_filter.1 ((hmem p.2).2 ⟨p.1, ⟨hold, hkeep⟩, hnew.symm⟩)
    rw [← List.inj_on_of_nodup_map hnews hkept.1 hn (beq_iff_eq.1 hseq)]
    exact hkept.2
  · intro hkeep
    obtain ⟨o, ⟨ho, hokeep⟩, rfl⟩ := (hmem n).1 (List.mem_filter.2 ⟨hn, hkeep⟩)
    exact ⟨(o, f o), h.mem_pairByKey.2 ⟨ho, hokeep, rfl⟩, beq_self_eq_true _⟩

/-- **What links the siblings:** those that are kept are joined by their keys, and pairing by
similarity chooses among the others. -/
theorem mem_linkSiblings (h : KeptRow olds news keepOld keepNew f)
    (holds : (olds.map Entry.seq).Nodup) (hnews : (news.map Entry.seq).Nodup) :
    l ∈ linkSiblings threshold olds news ↔
      l.kind = .exact ∧ l.old ∈ olds ∧ keepOld l.old = true ∧ l.new = f l.old ∨
        l.kind = .similar ∧
          ∃ c ∈ pairSimilar threshold (leftOver keepOld olds) (leftOver keepNew news),
            c.old = l.old ∧ c.new = l.new := by
  rw [TreeDiff.mem_linkSiblings, h.mem_pairByKey, h.restOld_eq holds, h.restNew_eq hnews]

/-- If nothing is left over in one of the rows, only those that are kept are joined. -/
lemma mem_linkSiblings_of_kept (h : KeptRow olds news keepOld keepNew f)
    (holds : (olds.map Entry.seq).Nodup) (hnews : (news.map Entry.seq).Nodup)
    (hkept : (∀ o ∈ olds, keepOld o = true) ∨ ∀ n ∈ news, keepNew n = true) :
    l ∈ linkSiblings threshold olds news ↔
      l.kind = .exact ∧ l.old ∈ olds ∧ keepOld l.old = true ∧ l.new = f l.old := by
  rw [h.mem_linkSiblings holds hnews]
  refine or_iff_left ?_
  rintro ⟨-, c, hc, -⟩
  obtain ⟨hold, hnew, -⟩ := mem_similarCandidates.1 (mem_candidates_of_mem_pairSimilar hc)
  rw [mem_leftOver] at hold hnew
  rcases hkept with hkept | hkept
  · exact Bool.false_ne_true (hold.2.2.symm.trans (hkept _ hold.1))
  · exact Bool.false_ne_true (hnew.2.2.symm.trans (hkept _ hnew.1))

end KeptRow

/-- One entry of each row is left over, and they are similar: then they are joined. -/
lemma mem_pairSimilar_of_single {o n : Entry} (hold : ∀ e, e ∈ olds ↔ e = o)
    (hnew : ∀ e, e ∈ news ↔ e = n)
    (hreaches : reaches threshold (o.similarity threshold n) = true) {a b : Entry} :
    (∃ c ∈ pairSimilar threshold olds news, c.old = a ∧ c.new = b) ↔ a = o ∧ b = n := by
  have honly : ∀ c ∈ similarCandidates threshold olds news, c.old = o ∧ c.new = n := by
    intro c hc
    obtain ⟨hco, hcn, -⟩ := mem_similarCandidates.1 hc
    exact ⟨(hold _).1 hco, (hnew _).1 hcn⟩
  have hbest := bestFirst_pairSimilar threshold olds news
  constructor
  · rintro ⟨c, hc, rfl, rfl⟩
    exact honly c (hbest.subset hc)
  · rintro ⟨rfl, rfl⟩
    have hcand : (⟨a, b, a.similarity threshold b⟩ : Candidate) ∈
        similarCandidates threshold olds news :=
      mem_similarCandidates.2 ⟨(hold a).2 rfl, (hnew b).2 rfl, rfl, hreaches⟩
    by_cases hchosen : (⟨a, b, a.similarity threshold b⟩ : Candidate) ∈
        pairSimilar threshold olds news
    · exact ⟨_, hchosen, rfl, rfl⟩
    -- what blocks the only candidate is itself a candidate of the same two entries
    · obtain ⟨d, hd, -⟩ := hbest.blocked _ hcand hchosen
      exact ⟨d, hd, honly d (hbest.subset hd)⟩

end

/-! ## Children of which a part stays -/

section

variable {threshold : Binary64} {links : Links} {p q : Entry} {keepOld keepNew : Entry → Bool}
  {f : Entry → Entry} {l : Link}

/-- Free children are linked row by row. -/
lemma mem_linkChildren_of_free (hold : ∀ c ∈ p.children, links.freeOld c = true)
    (hnew : ∀ n ∈ q.children, links.freeNew n = true) :
    l ∈ linkChildren threshold links p q ↔
      l ∈ linkSiblings threshold (ofType l.old.type p.children) (ofType l.old.type q.children) := by
  rw [mem_linkChildren, freeOlds, freeNews, List.filter_eq_self.2 hold, List.filter_eq_self.2 hnew]

lemma mem_ofType {type : String} {es : List Entry} {e : Entry} :
    e ∈ ofType type es ↔ e ∈ es ∧ e.type = type := by
  simp [ofType]

lemma nodup_seq_ofType (h : p.WellPlaced) (type : String) :
    ((ofType type p.children).map Entry.seq).Nodup :=
  h.nodup_children.sublist (List.filter_sublist.map _)

/-- If in every row nothing is left over on one of the two sides, the children that are kept are
joined, and no others. -/
theorem mem_linkChildren_of_keptRows (hp : p.WellPlaced) (hq : q.WellPlaced)
    (hold : ∀ c ∈ p.children, links.freeOld c = true)
    (hnew : ∀ n ∈ q.children, links.freeNew n = true)
    (hrows : ∀ type, KeptRow (ofType type p.children) (ofType type q.children) keepOld keepNew f)
    (hkept : (∀ c ∈ p.children, keepOld c = true) ∨ ∀ n ∈ q.children, keepNew n = true) :
    l ∈ linkChildren threshold links p q ↔
      l.kind = .exact ∧ l.old ∈ p.children ∧ keepOld l.old = true ∧ l.new = f l.old := by
  have hrow : (∀ o ∈ ofType l.old.type p.children, keepOld o = true) ∨
      ∀ n ∈ ofType l.old.type q.children, keepNew n = true :=
    hkept.imp (fun h o ho => h o (mem_ofType.1 ho).1) fun h n hn => h n (mem_ofType.1 hn).1
  rw [mem_linkChildren_of_free hold hnew, (hrows l.old.type).mem_linkSiblings_of_kept
    (nodup_seq_ofType hp _) (nodup_seq_ofType hq _) hrow, mem_ofType]
  simp

end

end TreeDiff
