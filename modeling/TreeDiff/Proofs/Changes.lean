/-
# What is reported

The changes of two trees come from three sources: the joined pairs below the roots, the free old
entries whose parents are joined, and the free new entries whose parents are joined.  The listing
visits the entries in document order, so it is a permutation of what the three sources give.  Read
in this way, a listing can be compared with the listing of the same trees with old and new
exchanged.
-/
import TreeDiff.Diff.Classify
import TreeDiff.Proofs.Soundness

namespace TreeDiff

/-- What is reported of two joined entries. -/
def Link.report (limit : Option Int) (l : Link) : Option Change :=
  l.change?.map fun kind => changed limit kind l.old l.new

namespace Links

/-- The links other than that of the roots. -/
def belowRoots (links : Links) (old : Entry) : Links := links.filter fun l => l.old.seq != old.seq

/-- Whether an old entry is reported as removed. -/
def isRemoved (links : Links) (e : Entry) : Bool := links.freeOld e && e.parent.any links.joinsOld

/-- Whether a new entry is reported as added. -/
def isAdded (links : Links) (e : Entry) : Bool := links.freeNew e && e.parent.any links.joinsNew

end Links

section

variable {threshold : Binary64} {limit : Option Int} {links back : Links} {old new e : Entry}
  {l : Link}

/-! ## Kinds of changes -/

/-- A joined pair is never reported as removed or added. -/
lemma Link.kind_of_change? {kind : ChangeKind} (h : l.change? = some kind) :
    kind = .rename ∨ kind = .move ∨ kind = .modify := by
  simp only [change?] at h
  split_ifs at h <;> simp_all

lemma report_kind {c : Change} (h : l.report limit = some c) :
    c.kind ≠ .remove ∧ c.kind ≠ .add := by
  obtain ⟨kind, hkind, rfl⟩ := Option.map_eq_some_iff.1 h
  rcases Link.kind_of_change? hkind with rfl | rfl | rfl <;> simp [changed]

/-! ## The three sources -/

lemma oldChange?_of_free (hfree : links.freeOld e = true) :
    oldChange? limit links e = if links.isRemoved e then some (removed limit e) else none := by
  have hnone : links.ofOld? e = none := Option.isNone_iff_eq_none.1 hfree
  rw [oldChange?, hnone, Links.isRemoved, hfree, Bool.true_and]

lemma oldChange?_of_joined (hl : links.ofOld? e = some l) (he : l.old = e) :
    oldChange? limit links e = l.report limit := by
  rw [oldChange?, hl, ← he]
  rfl

lemma newChange?_eq : newChange? limit links e =
    if links.isAdded e then some (added limit e) else none := by
  rw [newChange?, Links.isAdded, Links.freeNew]
  cases links.ofNew? e <;> rfl

/-- Old entries are removed as new ones are added, seen from the other side. -/
lemma isRemoved_swap (hback : back.MirrorOf links) (e : Entry) :
    back.isRemoved e = links.isAdded e := by
  have hjoins : ∀ seq, back.joinsOld seq = links.joinsNew seq := by
    intro seq
    rw [Bool.eq_iff_iff, Links.joinsOld, Links.joinsNew, List.any_eq_true, List.any_eq_true]
    constructor
    · rintro ⟨l, hl, hseq⟩
      exact ⟨l.swap, Links.mem_swap.1 ((hback l).1 hl), hseq⟩
    · rintro ⟨l, hl, hseq⟩
      exact ⟨l.swap, (hback l.swap).2 (Links.mem_swap.2 hl), hseq⟩
  rw [Links.isRemoved, Links.isAdded, hback.freeOld_eq, funext hjoins]

/-- Items that come from one of two sources, source by source. -/
lemma perm_filterMap_append {α β : Type} {f g h : α → Option β} {items : List α}
    (hsplit : ∀ a ∈ items, h a = f a ∧ g a = none ∨ h a = g a ∧ f a = none) :
    (items.filterMap h).Perm (items.filterMap f ++ items.filterMap g) := by
  induction items with
  | nil => exact List.Perm.refl _
  | cons a rest ih =>
    rw [List.forall_mem_cons] at hsplit
    have ih := ih hsplit.2
    rcases hsplit.1 with ⟨hf, hg⟩ | ⟨hg, hf⟩
    · cases hfa : f a with
      | none => simpa [List.filterMap_cons, hf, hg, hfa] using ih
      | some b => simpa [List.filterMap_cons, hf, hg, hfa] using ih
    · cases hga : g a with
      | none => simpa [List.filterMap_cons, hf, hg, hga] using ih
      | some b =>
        simp only [List.filterMap_cons, hg, hf, hga]
        exact (ih.cons b).trans List.perm_middle.symm

lemma filterMap_if {α β : Type} (p : α → Bool) (f : α → β) (items : List α) :
    (items.filterMap fun a => if p a then some (f a) else none) = (items.filter p).map f := by
  induction items with
  | nil => rfl
  | cons a rest ih => cases h : p a <;> simp [h, ih]

lemma Links.OneToOne.nodup (h : links.OneToOne) : links.Nodup := by
  refine List.Pairwise.imp (fun {l m} hlm heq => ?_) h
  exact hlm.1 (heq ▸ rfl)

/-- Among the links of a sound state, the one of the roots is told by its old entry. -/
lemma mem_belowRoots (hsound : links.Sound threshold old new) :
    l ∈ links.belowRoots old ↔ l ∈ links ∧ l ≠ ⟨old, new, .exact⟩ := by
  rw [Links.belowRoots, List.mem_filter, bne_iff_ne]
  refine and_congr_right fun hl => not_congr ⟨fun hseq => ?_, ?_⟩
  · exact hsound.oneToOne.eq_of_old hl hsound.roots_joined hseq
  · rintro rfl
    rfl

/-- The links of the entries below the root, one after the other. -/
lemma perm_filterMap_ofOld? (hold : old.WellPlaced) (hsound : links.Sound threshold old new) :
    (old.descendants.filterMap links.ofOld?).Perm (links.belowRoots old) := by
  have hleft : (old.descendants.filterMap links.ofOld?).Nodup := by
    refine List.pairwise_filterMap.2
      (hold.pairwise_seq_descendants.imp fun {a b} hab l hl m hm heq => hab ?_)
    have hla := (hsound.oneToOne.ofOld?_eq_some_iff.1 hl).2
    have hmb := (hsound.oneToOne.ofOld?_eq_some_iff.1 hm).2
    rw [← hla, ← hmb, heq]
  refine (List.perm_ext_iff_of_nodup hleft (hsound.oneToOne.nodup.filter _)).2 fun l => ?_
  rw [List.mem_filterMap, ← Links.belowRoots, mem_belowRoots hsound]
  constructor
  · rintro ⟨o, ho, hl⟩
    obtain ⟨hl, hseq⟩ := hsound.oneToOne.ofOld?_eq_some_iff.1 hl
    refine ⟨hl, ?_⟩
    rintro rfl
    exact hold.seq_ne_of_mem_descendants ho hseq.symm
  · rintro ⟨hl, hne⟩
    exact ⟨l.old, (hsound.mem_descendants hl hne).1,
      hsound.oneToOne.ofOld?_eq_some_iff.2 ⟨hl, rfl⟩⟩

/-- **The changes are those of the joined pairs, the removals and the additions.** -/
theorem perm_classify (hold : old.WellPlaced) (hsound : links.Sound threshold old new) :
    (classify limit links old new).Perm
      ((links.belowRoots old).filterMap (Link.report limit) ++
        (old.descendants.filter links.isRemoved).map (removed limit) ++
        (new.descendants.filter links.isAdded).map (added limit)) := by
  have hnew : new.descendants.filterMap (newChange? limit links) =
      (new.descendants.filter links.isAdded).map (added limit) := by
    rw [← filterMap_if]
    exact List.filterMap_congr fun n _ => newChange?_eq
  have hsplit : (old.descendants.filterMap (oldChange? limit links)).Perm
      ((old.descendants.filterMap fun o => (links.ofOld? o).bind (Link.report limit)) ++
        old.descendants.filterMap fun o =>
          if links.isRemoved o then some (removed limit o) else none) := by
    refine perm_filterMap_append fun o ho => ?_
    cases hl : links.ofOld? o with
    | none =>
      exact Or.inr ⟨oldChange?_of_free (by rw [Links.freeOld, hl]; rfl), rfl⟩
    | some l =>
      obtain ⟨hmem, hseq⟩ := hsound.oneToOne.ofOld?_eq_some_iff.1 hl
      have heq : l.old = o := hold.eq_of_seq (hsound.placed l hmem).1
        (Entry.mem_preorder_of_mem_descendants ho) hseq
      refine Or.inl ⟨oldChange?_of_joined hl heq, ?_⟩
      simp [Links.isRemoved, Links.freeOld, hl]
  -- an old entry is reported by its link or, if it has none, as a removal
  rw [classify, Entry.preorder_eq, Entry.preorder_eq, List.tail_cons, List.tail_cons, hnew]
  refine List.Perm.append_right _ (hsplit.trans ?_)
  rw [filterMap_if, ← List.filterMap_filterMap]
  exact ((perm_filterMap_ofOld? hold hsound).filterMap _).append_right _

/-- Where a change comes from. -/
lemma mem_classify (hold : old.WellPlaced) (hsound : links.Sound threshold old new) {c : Change} :
    c ∈ classify limit links old new ↔
      (∃ l ∈ links.belowRoots old, l.report limit = some c) ∨
        (∃ o ∈ old.descendants, links.isRemoved o = true ∧ removed limit o = c) ∨
          ∃ n ∈ new.descendants, links.isAdded n = true ∧ added limit n = c := by
  rw [(perm_classify hold hsound).mem_iff]
  simp only [List.mem_append, List.mem_filterMap, List.mem_map, List.mem_filter, or_assoc,
    and_assoc]

lemma Differ.mem_diffOutlines {d : Differ} {fullText : Bool} {old new : Outline} {c : Change} :
    c ∈ (d.diffOutlines fullText old new).changes ↔
      c ∈ classify (d.limit fullText) (linkTrees d.threshold (.root old) (.root new)) (.root old)
        (.root new) :=
  List.mem_mergeSort

/-- The changes of two outlines whose candidates for a move are found in order. -/
lemma Differ.perm_changes_of_sorted {d : Differ} {fullText : Bool} {old new : Outline}
    (h : (foundCandidates d.threshold (linkInPlace d.threshold (.root old) (.root new)) (.root old)
      (.root new)).Pairwise fun c d => lexNotAfter c.key d.key = true) :
    (d.diffOutlines fullText old new).changes.Perm (classify (d.limit fullText)
      ((foundCandidates d.threshold (linkInPlace d.threshold (.root old) (.root new)) (.root old)
        (.root new)).foldl (acceptMove d.threshold)
          (linkInPlace d.threshold (.root old) (.root new)))
      (.root old) (.root new)) := by
  rw [← moveCandidates_of_sorted h]
  exact List.mergeSort_perm _ _

/-- The removals are those of free old entries. -/
lemma exists_of_remove_mem_classify (hold : old.WellPlaced) (hsound : links.Sound threshold old new)
    {c : Change} (hc : c ∈ classify limit links old new) (hkind : c.kind = .remove) :
    ∃ o ∈ old.preorder, links.freeOld o = true ∧ c = removed limit o := by
  rcases (mem_classify hold hsound).1 hc with ⟨l, -, hl⟩ | ⟨o, ho, hfree, rfl⟩ | ⟨n, -, -, rfl⟩
  · exact absurd hkind (report_kind hl).1
  · exact ⟨o, Entry.mem_preorder_of_mem_descendants ho, (Bool.and_eq_true_iff.1 hfree).1, rfl⟩
  · simp [added] at hkind

/-- The additions are those of free new entries. -/
lemma exists_of_add_mem_classify (hold : old.WellPlaced) (hsound : links.Sound threshold old new)
    {c : Change} (hc : c ∈ classify limit links old new) (hkind : c.kind = .add) :
    ∃ n ∈ new.preorder, links.freeNew n = true ∧ c = added limit n := by
  rcases (mem_classify hold hsound).1 hc with ⟨l, -, hl⟩ | ⟨o, -, -, rfl⟩ | ⟨n, hn, hfree, rfl⟩
  · exact absurd hkind (report_kind hl).2
  · simp [removed] at hkind
  · exact ⟨n, Entry.mem_preorder_of_mem_descendants hn, (Bool.and_eq_true_iff.1 hfree).1, rfl⟩

end

/-! ## Small programs -/

/-- A schema in which functions have a name and a body. -/
def Schema.functions : Schema :=
  ⟨none, [⟨"function", true, [("name", ⟨[⟨"identifier", true⟩], false, true⟩),
      ("body", ⟨[⟨"block", true⟩], false, true⟩)], none, []⟩,
    ⟨"identifier", true, [], none, []⟩, ⟨"block", true, [], none, []⟩,
    ⟨"program", true, [], none, []⟩]⟩

/-- A function. -/
def Node.ofFunction (name body : String) : Node :=
  ⟨"function", "def " ++ name ++ ": " ++ body, true, ⟨0, 0⟩, ⟨0, 0⟩, none,
    [⟨"identifier", name, true, ⟨0, 0⟩, ⟨0, 0⟩, some "name", []⟩,
      ⟨"block", body, true, ⟨0, 0⟩, ⟨0, 0⟩, some "body", []⟩]⟩

/-- A program. -/
def Node.programOf (children : List Node) : Node :=
  ⟨"program", "", true, ⟨0, 0⟩, ⟨0, 0⟩, none, children⟩

/-- A block, which has no name. -/
def Node.blockOf (children : List Node) : Node :=
  ⟨"block", "", true, ⟨0, 0⟩, ⟨0, 0⟩, none, children⟩

/-- A program of two functions. -/
def Node.twoFunctions : Node := .programOf [.ofFunction "f" "1", .ofFunction "g" "2"]

end TreeDiff
