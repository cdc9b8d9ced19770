/-
# Trees that are rearranged in place

A tree may be edited in place and its siblings put in another order so that every entry keeps its
type and its key, and siblings with one name stay in their order.  Then the in-place stage joins
every entry with its counterpart.  Nothing is left for the other stages, and what is reported are
the entries whose intents changed.
-/
import TreeDiff.Proofs.Changes
import TreeDiff.Proofs.Counterparts

namespace TreeDiff

namespace Entry

/-- The new tree comes from the old one by putting siblings in another order, so that types and
names stay, an entry without a name stays at its place among the siblings of its type, and siblings
of one type and one name stay in their order.  Everything else may be different. -/
structure Rearrangement (old new : Entry) (f : Entry → Entry) : Prop
    extends Counterparts old new f where
  type_eq : ∀ e ∈ old.preorder, (f e).type = e.type
  identifier_eq : ∀ e ∈ old.preorder, (f e).identifier = e.identifier
  ordinal_eq : ∀ e ∈ old.preorder, e.identifier = none → (f e).ordinal = e.ordinal
  order : ∀ p ∈ old.preorder, ∀ a ∈ p.children, ∀ b ∈ p.children, a.type = b.type →
    a.isIdentified = true → a.identifier = b.identifier → a.seq < b.seq → (f a).seq < (f b).seq

/-- Every tree is a rearrangement of itself. -/
lemma rearrangement_self (e : Entry) : Rearrangement e e id where
  bijOn := Set.bijOn_id _
  root := rfl
  children _ _ _ hc := hc
  type_eq _ _ := rfl
  identifier_eq _ _ := rfl
  ordinal_eq _ _ _ := rfl
  order _ _ _ _ _ _ _ _ _ hlt := hlt

end Entry

/-! ## Joining counterparts -/

lemma nodup_of_pairwise_seq {es : List Entry} (hes : es.Pairwise fun a b => a.seq < b.seq) :
    es.Nodup := by
  refine hes.imp ?_
  rintro a b hlt rfl
  exact Nat.lt_irrefl _ hlt

/-- Entries that are sorted by their numbers are determined by which they are. -/
lemma eq_of_mem_iff {es fs : List Entry} (hes : es.Pairwise fun a b => a.seq < b.seq)
    (hfs : fs.Pairwise fun a b => a.seq < b.seq) (hmem : ∀ e, e ∈ es ↔ e ∈ fs) : es = fs := by
  have hperm := (List.perm_ext_iff_of_nodup (nodup_of_pairwise_seq hes)
    (nodup_of_pairwise_seq hfs)).2 hmem
  exact hperm.eq_of_pairwise (fun a b _ _ hab hba => absurd hab (Nat.lt_asymm hba)) hes hfs

section

variable {threshold : Binary64} {limit : Option Int} {links : Links} {old new : Outline}
  {p e : Entry} {f : Entry → Entry} {l : Link} {type : String} {k : Key}

namespace Entry.Rearrangement

lemma key_eq (h : Rearrangement (root old) (root new) f) (he : e ∈ (root old).preorder) :
    (f e).key = e.key := by
  rw [key_eq_iff, h.identifier_eq e he]
  exact ⟨rfl, h.ordinal_eq e he⟩

lemma mem_of_mem_ofType (hp : p ∈ (root old).preorder) (he : e ∈ ofType type p.children) :
    e ∈ p.children ∧ e ∈ (root old).preorder ∧ e.type = type := by
  simp only [ofType, List.mem_filter, decide_eq_true_eq] at he
  exact ⟨he.1, child_mem_preorder hp he.1, he.2⟩

/-- Siblings of one type and one key stay in their order: if the key is a name, by assumption, and
if it is an ordinal, because only one of them has it. -/
lemma seq_lt (h : Rearrangement (root old) (root new) f) (hp : p ∈ (root old).preorder)
    {a b : Entry} (ha : a ∈ p.children) (hb : b ∈ p.children) (htype : a.type = b.type)
    (hkey : a.key = b.key) (hordinal : a.ordinal < b.ordinal) (hlt : a.seq < b.seq) :
    (f a).seq < (f b).seq := by
  obtain ⟨hname, hsame⟩ := key_eq_iff.1 hkey
  cases hid : a.identifier with
  | none => exact absurd (hsame hid) (Nat.ne_of_lt hordinal)
  | some name =>
    exact h.order p hp a ha b hb htype (by rw [isIdentified, hid]; rfl) hname hlt

/-- The children of one type and one key, as they stand in the two trees. -/
lemma withKey_eq (h : Rearrangement (root old) (root new) f) (hp : p ∈ (root old).preorder) :
    withKey k (ofType type (f p).children) = (withKey k (ofType type p.children)).map f := by
  have hnew := wellPlaced_root new
  have hsub : (withKey k (ofType type p.children)).Sublist p.children :=
    List.filter_sublist.trans List.filter_sublist
  have hsub' : (withKey k (ofType type (f p).children)).Sublist (f p).children :=
    List.filter_sublist.trans List.filter_sublist
  have hsorted' : (withKey k (ofType type (f p).children)).Pairwise fun a b => a.seq < b.seq :=
    (pairwise_seq_children (h.mem hp)).sublist hsub'
  have hsorted : ((withKey k (ofType type p.children)).map f).Pairwise fun a b =>
      a.seq < b.seq := by
    rw [List.pairwise_map]
    have hboth := ((pairwise_seq_children hp).and (pairwise_ordinal_children hp)).sublist hsub
    refine hboth.imp_of_mem ?_
    rintro a b ha hb ⟨hlt, hordinal⟩
    rw [mem_withKey] at ha hb
    obtain ⟨hac, -, hat⟩ := mem_of_mem_ofType hp ha.1
    obtain ⟨hbc, -, hbt⟩ := mem_of_mem_ofType hp hb.1
    have htype := hat.trans hbt.symm
    exact h.seq_lt hp hac hbc htype (ha.2.trans hb.2.symm) (hordinal htype) hlt
  have hmem : ∀ d, d ∈ withKey k (ofType type (f p).children) ↔
      d ∈ (withKey k (ofType type p.children)).map f := by
    intro d
    rw [mem_withKey, ofType, List.mem_filter, decide_eq_true_eq, h.mem_children_iff hnew hp,
      List.mem_map]
    constructor
    · rintro ⟨⟨⟨c, hc, rfl⟩, htype⟩, hkey⟩
      have hcold := child_mem_preorder hp hc
      rw [h.type_eq c hcold] at htype
      rw [h.key_eq hcold] at hkey
      exact ⟨c, mem_withKey.2 ⟨List.mem_filter.2 ⟨hc, by simpa using htype⟩, hkey⟩, rfl⟩
    · rintro ⟨c, hc, rfl⟩
      obtain ⟨hc, hkey⟩ := mem_withKey.1 hc
      obtain ⟨hcp, hcold, htype⟩ := mem_of_mem_ofType hp hc
      exact ⟨⟨⟨c, hcp, rfl⟩, (h.type_eq c hcold).trans htype⟩, (h.key_eq hcold).trans hkey⟩
  exact eq_of_mem_iff hsorted' hsorted hmem

/-- Pairing the children of one type by their keys joins them with their counterparts. -/
lemma mem_pairByKey (h : Rearrangement (root old) (root new) f) (hp : p ∈ (root old).preorder)
    {q : Entry × Entry} : q ∈ pairByKey (ofType type p.children) (ofType type (f p).children) ↔
      q.1 ∈ ofType type p.children ∧ q.2 = f q.1 := by
  rw [TreeDiff.mem_pairByKey, h.withKey_eq hp, ← List.map_prod_left_eq_zip, List.mem_map]
  constructor
  · rintro ⟨c, hc, hq⟩
    obtain ⟨hc, -⟩ := mem_withKey.1 hc
    rw [← hq]
    exact ⟨hc, rfl⟩
  · rintro ⟨hc, hq⟩
    exact ⟨q.1, mem_withKey.2 ⟨hc, rfl⟩, by rw [← hq]⟩

/-- Nothing is left for pairing by similarity. -/
lemma restOld_eq_nil (h : Rearrangement (root old) (root new) f) (hp : p ∈ (root old).preorder) :
    restOld (ofType type p.children) (ofType type (f p).children) = [] := by
  rw [List.eq_nil_iff_forall_not_mem]
  intro e he
  obtain ⟨he, -, hleft⟩ := mem_restOld.1 he
  exact hleft (e, f e) ((h.mem_pairByKey hp).2 ⟨he, rfl⟩) rfl

lemma mem_linkSiblings (h : Rearrangement (root old) (root new) f) (hp : p ∈ (root old).preorder) :
    l ∈ linkSiblings threshold (ofType type p.children) (ofType type (f p).children) ↔
      l.kind = .exact ∧ l.old ∈ ofType type p.children ∧ l.new = f l.old := by
  rw [TreeDiff.mem_linkSiblings, h.mem_pairByKey hp, h.restOld_eq_nil hp]
  refine or_iff_left ?_
  rintro ⟨-, c, hc, -⟩
  have hold := (mem_similarCandidates.1 (mem_candidates_of_mem_pairSimilar hc)).1
  exact List.not_mem_nil hold

/-! ## The descent -/

/-- The children of counterparts are joined with their counterparts. -/
lemma mem_linkChildren (h : Rearrangement (root old) (root new) f) (hp : p ∈ (root old).preorder) :
    l ∈ linkChildren threshold [⟨root old, root new, .exact⟩] p (f p) ↔
      l.kind = .exact ∧ l.old ∈ p.children ∧ l.new = f l.old := by
  have holds : ∀ type, freeOlds [⟨root old, root new, .exact⟩] type p = ofType type p.children := by
    intro type
    rw [freeOlds, List.filter_eq_self.2 fun e he =>
      freeOld_of_mem_descendants (wellPlaced_root old) (child_mem_descendants hp he)]
  have hnews : ∀ type, freeNews [⟨root old, root new, .exact⟩] type (f p) =
      ofType type (f p).children := by
    intro type
    rw [freeNews, List.filter_eq_self.2 fun e he =>
      freeNew_of_mem_descendants (wellPlaced_root new) (child_mem_descendants (h.mem hp) he)]
  rw [TreeDiff.mem_linkChildren, holds, hnews, h.mem_linkSiblings hp]
  simp [ofType]

/-- **Every entry is joined with its counterpart, and in no other way.** -/
theorem mem_linkTrees (h : Rearrangement (root old) (root new) f) :
    l ∈ linkTrees threshold (root old) (root new) ↔
      l.kind = .exact ∧ l.old ∈ (root old).preorder ∧ l.new = f l.old :=
  mem_linkTrees_of_all_stages (fun _ => .exact) (wellPlaced_root old) (wellPlaced_root new) h.root
    rfl fun _ hp _ => h.mem_linkChildren hp

/-! ## What is reported -/

lemma removed_eq_nil (h : Rearrangement (root old) (root new) f) :
    (root old).descendants.filter (linkTrees threshold (root old) (root new)).isRemoved = [] := by
  rw [List.filter_eq_nil_iff]
  intro e he hremoved
  have hlink : (⟨e, f e, .exact⟩ : Link) ∈ linkTrees threshold (root old) (root new) :=
    h.mem_linkTrees.2 ⟨rfl, mem_preorder_of_mem_descendants he, rfl⟩
  exact Links.freeOld_iff.1 (Bool.and_eq_true_iff.1 hremoved).1 _ hlink rfl

lemma added_eq_nil (h : Rearrangement (root old) (root new) f) :
    (root new).descendants.filter (linkTrees threshold (root old) (root new)).isAdded = [] := by
  rw [List.filter_eq_nil_iff]
  intro e he hadded
  obtain ⟨o, ho, rfl⟩ := h.exists_eq (mem_preorder_of_mem_descendants he)
  have hlink : (⟨o, f o, .exact⟩ : Link) ∈ linkTrees threshold (root old) (root new) :=
    h.mem_linkTrees.2 ⟨rfl, ho, rfl⟩
  exact Links.freeNew_iff.1 (Bool.and_eq_true_iff.1 hadded).1 _ hlink rfl

lemma report_exact (limit : Option Int) (a b : Entry) : Link.report limit ⟨a, b, .exact⟩ =
    if a.outline.intents ≠ b.outline.intents then some (changed limit .modify a b) else none := by
  by_cases hintents : a.outline.intents = b.outline.intents <;>
    simp [Link.report, Link.change?, hintents]

lemma perm_belowRoots (h : Rearrangement (root old) (root new) f) :
    (Links.belowRoots (linkTrees threshold (root old) (root new)) (root old)).Perm
      ((root old).descendants.map fun e => ⟨e, f e, .exact⟩) := by
  have hold := wellPlaced_root old
  have hsound := (Links.Run.linkTrees hold (wellPlaced_root new) threshold).sound
  have hnodup : (root old).descendants.Nodup := by
    have hsorted := pairwise_seq_preorder_root old
    rw [preorder_eq, List.pairwise_cons] at hsorted
    exact nodup_of_pairwise_seq hsorted.2
  have hnodup' : ((root old).descendants.map fun e => (⟨e, f e, .exact⟩ : Link)).Nodup :=
    hnodup.map fun a b hab => congrArg Link.old hab
  refine (List.perm_ext_iff_of_nodup (hsound.oneToOne.nodup.filter _) hnodup').2 fun l => ?_
  rw [← Links.belowRoots, mem_belowRoots hsound, List.mem_map]
  constructor
  · rintro ⟨hl, hne⟩
    obtain ⟨hkind, -, hlnew⟩ := h.mem_linkTrees.1 hl
    refine ⟨l.old, (hsound.mem_descendants hl hne).1, ?_⟩
    rw [← hkind, ← hlnew]
  · rintro ⟨e, he, rfl⟩
    refine ⟨h.mem_linkTrees.2 ⟨rfl, mem_preorder_of_mem_descendants he, rfl⟩, fun heq => ?_⟩
    exact hold.seq_ne_of_mem_descendants he (congrArg (fun l => l.old.seq) heq)

/-- **What is reported are the entries whose intents changed.** -/
theorem perm_classify (h : Rearrangement (root old) (root new) f) :
    (classify limit (linkTrees threshold (root old) (root new)) (root old) (root new)).Perm
      (((root old).descendants.filter fun e => e.outline.intents ≠ (f e).outline.intents).map
        fun e => changed limit .modify e (f e)) := by
  have hold := wellPlaced_root old
  have hsound := (Links.Run.linkTrees hold (wellPlaced_root new) threshold).sound
  refine (TreeDiff.perm_classify hold hsound).trans ?_
  rw [h.removed_eq_nil, h.added_eq_nil, List.map_nil, List.map_nil, List.append_nil,
    List.append_nil]
  refine (h.perm_belowRoots.filterMap _).trans (List.Perm.of_eq ?_)
  rw [List.filterMap_map, ← filterMap_if]
  simp only [Function.comp_def, report_exact, decide_eq_true_eq]

end Entry.Rearrangement

end

/-- **Edits in place and reordering.**  A comparison with a rearranged tree reports a modification
of each entry below the root whose intents changed, and nothing else.  So a tree has no changes when
it is compared with itself or with a tree in which siblings only stand in another order. -/
theorem diff_of_rearrangement (d : Differ) (fullText : Bool) (old : Node) :
    d.diff fullText (some old) (some old) = .ok ⟨[]⟩ ∧
    ∀ new f, Entry.Rearrangement (.root (.ofNode d.schema old)) (.root (.ofNode d.schema new)) f →
      ∃ result, d.diff fullText (some old) (some new) = .ok result ∧
        result.changes.Perm
          (((Entry.root (.ofNode d.schema old)).descendants.filter fun e =>
              e.outline.intents ≠ (f e).outline.intents).map fun e =>
            changed (d.limit fullText) .modify e (f e)) ∧
        ((∀ e ∈ (Entry.root (.ofNode d.schema old)).descendants,
          (f e).outline.intents = e.outline.intents) → result.changes = []) := by
  have hgeneral : ∀ new f,
      Entry.Rearrangement (.root (.ofNode d.schema old)) (.root (.ofNode d.schema new)) f →
      (d.diffOutlines fullText (.ofNode d.schema old) (.ofNode d.schema new)).changes.Perm
        (((Entry.root (.ofNode d.schema old)).descendants.filter fun e =>
            e.outline.intents ≠ (f e).outline.intents).map fun e =>
          changed (d.limit fullText) .modify e (f e)) := fun new f h =>
    (List.mergeSort_perm _ _).trans h.perm_classify
  have hunchanged : ∀ new f,
      Entry.Rearrangement (.root (.ofNode d.schema old)) (.root (.ofNode d.schema new)) f →
      (∀ e ∈ (Entry.root (.ofNode d.schema old)).descendants,
        (f e).outline.intents = e.outline.intents) →
      (d.diffOutlines fullText (.ofNode d.schema old) (.ofNode d.schema new)).changes = [] := by
    intro new f h hsame
    have hnone : ((Entry.root (.ofNode d.schema old)).descendants.filter fun e =>
        decide (e.outline.intents ≠ (f e).outline.intents)) = [] := by
      rw [List.filter_eq_nil_iff]
      intro e he
      simp [hsame e he]
    have hperm := hgeneral new f h
    rw [hnone, List.map_nil] at hperm
    exact hperm.eq_nil
  constructor
  · have hself := hunchanged old id (Entry.rearrangement_self _) fun _ _ => rfl
    rw [Differ.diff]
    exact congrArg Except.ok (congrArg Diff.mk hself)
  · intro new f h
    exact ⟨_, rfl, hgeneral new f h, hunchanged new f h⟩

/-! ## Two functions that change places -/

/-- The functions in the other order, the second one with another body. -/
def Node.afterReorder : Node := .programOf [.ofFunction "g" "3", .ofFunction "f" "1"]

/-- The entry with a number. -/
def Entry.numbered (e : Entry) (seq : Nat) : Entry := (e.preorder.find? fun x => x.seq = seq).getD e

lemma Entry.numbered_mem (e : Entry) (seq : Nat) : e.numbered seq ∈ e.preorder := by
  rw [numbered]
  cases h : e.preorder.find? fun x => x.seq = seq with
  | none => exact mem_preorder_self e
  | some x => exact List.mem_of_find?_eq_some h

/-- The entry of a tree whose number a list gives for that of another entry. -/
def Entry.renumbered (new : Entry) (numbers : List Nat) (e : Entry) : Entry :=
  new.numbered (numbers.getD e.seq 0)

lemma Entry.renumbered_mem (new : Entry) (numbers : List Nat) (e : Entry) :
    new.renumbered numbers e ∈ new.preorder := numbered_mem _ _

/-- The counterparts of the functions and of what lies below them. -/
def Entry.reordered (e : Entry) : Entry :=
  (Entry.root (.ofNode .functions .afterReorder)).numbered ([0, 4, 5, 6, 1, 2, 3].getD e.seq 0)

theorem modified_twoFunctions_afterReorder :
    Entry.Rearrangement (.root (.ofNode .functions .twoFunctions))
      (.root (.ofNode .functions .afterReorder)) Entry.reordered ∧
    ∃ result, Differ.diff (.usual .functions) false (some .twoFunctions) (some .afterReorder) =
        .ok result ∧
      result.changes.map (fun c => (c.kind, c.oldIdentity)) = [(.modify, some "g")] := by
  have h : Entry.Rearrangement (.root (.ofNode .functions .twoFunctions))
      (.root (.ofNode .functions .afterReorder)) Entry.reordered := by
    refine ⟨Entry.Counterparts.of_seq (Entry.wellPlaced_root _)
      (fun _ _ => Entry.numbered_mem _ _) ?_ ?_ rfl ?_, ?_, ?_, ?_, ?_⟩ <;> decide +kernel
  obtain ⟨result, hresult, hperm, -⟩ :=
    (diff_of_rearrangement (.usual .functions) false .twoFunctions).2 .afterReorder _ h
  refine ⟨h, result, hresult, ?_⟩
  have hmodified : (((Entry.root (.ofNode .functions .twoFunctions)).descendants.filter fun e =>
      e.outline.intents ≠ e.reordered.outline.intents).map fun e =>
        (changed (some 100) .modify e e.reordered)).map (fun c => (c.kind, c.oldIdentity)) =
      [(.modify, some "g")] := by decide +kernel
  have hone := hperm.map fun c => (c.kind, c.oldIdentity)
  exact (hone.trans (List.Perm.of_eq hmodified)).eq_singleton

end TreeDiff
