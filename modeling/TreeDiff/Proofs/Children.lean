/-
# Linking the children of joined entries

The in-place stage looks at the free children of two joined entries, type by type.  It joins
children of one type for a reason, it does not leave two free that fit, it does not tell old from
new, and its links stay the same when children that it leaves free are not there.
-/
import TreeDiff.Proofs.Numbering
import TreeDiff.Proofs.Siblings

namespace TreeDiff

section

variable {threshold : Binary64} {olds news : List Entry} {keepOld keepNew : Entry → Bool}

/-! ## Siblings that were left free -/

lemma restOld_filter (h : ∀ p ∈ pairByKey olds news, keepOld p.1 = true ∧ keepNew p.2 = true) :
    restOld (olds.filter keepOld) (news.filter keepNew) = (restOld olds news).filter keepOld := by
  rw [restOld, restOld, List.filter_filter, List.filter_filter]
  refine List.filter_congr fun e _ => ?_
  have hany : ((pairByKey (olds.filter keepOld) (news.filter keepNew)).any fun p =>
      p.1.seq == e.seq) = (pairByKey olds news).any fun p => p.1.seq == e.seq := by
    rw [Bool.eq_iff_iff, List.any_eq_true, List.any_eq_true]
    exact exists_congr fun p => and_congr_left fun _ => mem_pairByKey_filter h
  rw [hany, Bool.and_comm]

lemma restNew_filter (h : ∀ p ∈ pairByKey olds news, keepOld p.1 = true ∧ keepNew p.2 = true) :
    restNew (olds.filter keepOld) (news.filter keepNew) = (restNew olds news).filter keepNew := by
  rw [← restOld_swap, ← restOld_swap]
  exact restOld_filter fun p hp => (h p.swap (swap_mem_pairByKey.2 hp)).symm

/-- Taking away siblings that were left free does not change the links. -/
lemma mem_linkSiblings_filter (holds : (olds.map Entry.seq).Nodup)
    (hnews : (news.map Entry.seq).Nodup)
    (h : ∀ l ∈ linkSiblings threshold olds news, keepOld l.old = true ∧ keepNew l.new = true)
    {l : Link} : l ∈ linkSiblings threshold (olds.filter keepOld) (news.filter keepNew) ↔
      l ∈ linkSiblings threshold olds news := by
  have hexact : ∀ p ∈ pairByKey olds news, keepOld p.1 = true ∧ keepNew p.2 = true :=
    fun p hp => h ⟨p.1, p.2, .exact⟩ (mem_linkSiblings.2 (Or.inl ⟨rfl, hp⟩))
  have hsimilar : ∀ c ∈ pairSimilar threshold (restOld olds news) (restNew olds news),
      keepOld c.old = true ∧ keepNew c.new = true := fun c hc =>
    h ⟨c.old, c.new, .similar⟩ (mem_linkSiblings.2 (Or.inr ⟨rfl, c, hc, rfl, rfl⟩))
  rw [mem_linkSiblings, mem_linkSiblings, mem_pairByKey_filter hexact, restOld_filter hexact,
    restNew_filter hexact]
  refine or_congr Iff.rfl
    (and_congr_right fun _ => exists_congr fun c => and_congr_left fun _ => ?_)
  exact mem_pairSimilar_filter (holds.sublist (List.filter_sublist.map _))
    (hnews.sublist (List.filter_sublist.map _)) hsimilar

end

/-! ## Children of all types -/

/-- The free old children of a type. -/
def freeOlds (links : Links) (type : String) (e : Entry) : List Entry :=
  ofType type (e.children.filter links.freeOld)

/-- The free new children of a type. -/
def freeNews (links : Links) (type : String) (e : Entry) : List Entry :=
  ofType type (e.children.filter links.freeNew)

section

variable {threshold : Binary64} {links more : Links} {old new e : Entry} {type : String} {l : Link}

lemma mem_freeOlds : e ∈ freeOlds links type old ↔
    e ∈ old.children ∧ links.freeOld e = true ∧ e.type = type := by
  simp only [freeOlds, ofType, List.mem_filter, decide_eq_true_eq, and_assoc]

lemma mem_freeNews : e ∈ freeNews links type new ↔
    e ∈ new.children ∧ links.freeNew e = true ∧ e.type = type := by
  simp only [freeNews, ofType, List.mem_filter, decide_eq_true_eq, and_assoc]

lemma freeOlds_swap : freeOlds links.swap type e = freeNews links type e :=
  congrArg _ (List.filter_congr fun _ _ => Links.freeOld_swap)

lemma freeNews_swap : freeNews links.swap type e = freeOlds links type e :=
  congrArg _ (List.filter_congr fun _ _ => Links.freeNew_swap)

lemma freeOlds_of_subset (hsub : links ⊆ more) :
    freeOlds more type e = (freeOlds links type e).filter more.freeOld := by
  simp only [freeOlds, ofType, List.filter_filter]
  refine List.filter_congr fun c _ => ?_
  cases hfree : more.freeOld c with
  | false => simp
  | true => simp [Links.freeOld_of_subset hsub hfree]

lemma freeNews_of_subset (hsub : links ⊆ more) :
    freeNews more type e = (freeNews links type e).filter more.freeNew := by
  simp only [freeNews, ofType, List.filter_filter]
  refine List.filter_congr fun c _ => ?_
  cases hfree : more.freeNew c with
  | false => simp
  | true => simp [Links.freeNew_of_subset hsub hfree]

lemma nodup_freeOlds (h : old.WellPlaced) : ((freeOlds links type old).map Entry.seq).Nodup :=
  h.nodup_children.sublist ((List.filter_sublist.trans List.filter_sublist).map _)

lemma nodup_freeNews (h : new.WellPlaced) : ((freeNews links type new).map Entry.seq).Nodup :=
  h.nodup_children.sublist ((List.filter_sublist.trans List.filter_sublist).map _)

lemma mem_typesOf {entries : List Entry} :
    type ∈ typesOf entries ↔ ∃ e ∈ entries, e.type = type := by
  rw [typesOf, List.mem_eraseDups, List.mem_map]

lemma nodup_typesOf (entries : List Entry) : (typesOf entries).Nodup := by
  rw [typesOf]
  generalize entries.map (·.type) = types
  generalize hn : types.length = n
  induction n using Nat.strongRecOn generalizing types with
  | ind n ih =>
    cases types with
    | nil => exact List.nodup_nil
    | cons t rest =>
      rw [List.eraseDups_cons, List.nodup_cons]
      refine ⟨?_, ih _ ?_ _ rfl⟩
      · simp [List.mem_eraseDups]
      · rw [← hn, List.length_cons]
        exact Nat.lt_succ_of_le (List.length_filter_le _ _)

/-- Children are linked type by type. -/
lemma mem_linkChildren : l ∈ linkChildren threshold links old new ↔
    l ∈ linkSiblings threshold (freeOlds links l.old.type old) (freeNews links l.old.type new) := by
  rw [linkChildren, List.mem_flatMap]
  constructor
  · rintro ⟨type, -, hl⟩
    have htype := (mem_freeOlds.1 (old_mem_of_mem_linkSiblings hl)).2.2
    exact htype.symm ▸ hl
  · intro hl
    refine ⟨l.old.type, mem_typesOf.2 ⟨l.old, ?_, rfl⟩, hl⟩
    have hold := mem_freeOlds.1 (old_mem_of_mem_linkSiblings hl)
    exact List.mem_filter.2 ⟨hold.1, hold.2.1⟩

lemma old_of_mem_linkChildren (hl : l ∈ linkChildren threshold links old new) :
    l.old ∈ old.children ∧ links.freeOld l.old = true := by
  have hold := mem_freeOlds.1 (old_mem_of_mem_linkSiblings (mem_linkChildren.1 hl))
  exact ⟨hold.1, hold.2.1⟩

lemma new_of_mem_linkChildren (hl : l ∈ linkChildren threshold links old new) :
    l.new ∈ new.children ∧ links.freeNew l.new = true := by
  have hnew := mem_freeNews.1 (new_mem_of_mem_linkSiblings (mem_linkChildren.1 hl))
  exact ⟨hnew.1, hnew.2.1⟩

lemma type_eq_of_mem_linkChildren (hl : l ∈ linkChildren threshold links old new) :
    l.old.type = l.new.type :=
  (mem_freeNews.1 (new_mem_of_mem_linkSiblings (mem_linkChildren.1 hl))).2.2.symm

/-- What joins two children: their keys, or their texts under different identifiers. -/
lemma reason_of_mem_linkChildren (hl : l ∈ linkChildren threshold links old new) :
    l.kind = .exact ∧ l.old.key = l.new.key ∨
      l.kind = .similar ∧ l.old.IsRenaming threshold l.new :=
  reason_of_mem_linkSiblings (mem_linkChildren.1 hl)

/-- Children are joined at most once. -/
lemma oneToOne_linkChildren (threshold : Binary64) (links : Links) (hold : old.WellPlaced)
    (hnew : new.WellPlaced) : Links.OneToOne (linkChildren threshold links old new) := by
  rw [linkChildren, Links.OneToOne, List.pairwise_flatMap]
  refine ⟨fun type _ => oneToOne_linkSiblings threshold (nodup_freeOlds hold) (nodup_freeNews hnew),
    (nodup_typesOf _).imp fun {type type'} hne l hl m hm =>
      ⟨fun hseq => hne ?_, fun hseq => hne ?_⟩⟩
  · have hl' := mem_freeOlds.1 (old_mem_of_mem_linkSiblings hl)
    have hm' := mem_freeOlds.1 (old_mem_of_mem_linkSiblings hm)
    rw [← hl'.2.2, ← hm'.2.2, List.inj_on_of_nodup_map hold.nodup_children hl'.1 hm'.1 hseq]
  · have hl' := mem_freeNews.1 (new_mem_of_mem_linkSiblings hl)
    have hm' := mem_freeNews.1 (new_mem_of_mem_linkSiblings hm)
    rw [← hl'.2.2, ← hm'.2.2, List.inj_on_of_nodup_map hnew.nodup_children hl'.1 hm'.1 hseq]

/-- **Two free children that fit are not both left free.** -/
theorem exists_mem_linkChildren {o n : Entry} (ho : o ∈ old.children) (hn : n ∈ new.children)
    (hofree : links.freeOld o = true) (hnfree : links.freeNew n = true)
    (hfits : o.Fits threshold n) :
    ∃ l ∈ linkChildren threshold links old new, l.old.seq = o.seq ∨ l.new.seq = n.seq := by
  obtain ⟨l, hl, hseq⟩ := exists_mem_linkSiblings (mem_freeOlds.2 ⟨ho, hofree, rfl⟩)
    (mem_freeNews.2 ⟨hn, hnfree, hfits.1.symm⟩) hfits
  have htype := (mem_freeOlds.1 (old_mem_of_mem_linkSiblings hl)).2.2
  exact ⟨l, mem_linkChildren.2 (htype.symm ▸ hl), hseq⟩

/-- Linking children does not tell old from new. -/
lemma swap_mem_linkChildren (hold : old.WellPlaced) (hnew : new.WellPlaced) :
    l.swap ∈ linkChildren threshold links.swap new old ↔
      l ∈ linkChildren threshold links old new := by
  have hsiblings : ∀ type, l.swap ∈ linkSiblings threshold (freeOlds links.swap type new)
      (freeNews links.swap type old) ↔
      l ∈ linkSiblings threshold (freeOlds links type old) (freeNews links type new) := by
    intro type
    rw [freeOlds_swap, freeNews_swap]
    exact swap_mem_linkSiblings (nodup_freeOlds hold) (nodup_freeNews hnew)
  constructor
  · intro hl
    have htype : l.new.type = l.old.type := type_eq_of_mem_linkChildren hl
    rw [mem_linkChildren, Link.swap_old, hsiblings, htype] at hl
    exact mem_linkChildren.2 hl
  · intro hl
    have htype : l.old.type = l.new.type := type_eq_of_mem_linkChildren hl
    rw [mem_linkChildren, htype, ← hsiblings] at hl
    exact mem_linkChildren.2 hl

lemma linkChildren_congr (h : ∀ l, l ∈ links ↔ l ∈ more) :
    linkChildren threshold links old new = linkChildren threshold more old new := by
  have hold : old.children.filter links.freeOld = old.children.filter more.freeOld :=
    List.filter_congr fun _ _ => Links.freeOld_congr h
  have hnew : new.children.filter links.freeNew = new.children.filter more.freeNew :=
    List.filter_congr fun _ _ => Links.freeNew_congr h
  simp only [linkChildren, hold, hnew]

/-- **Links made elsewhere do not matter** as long as they leave free whom this stage joins. -/
theorem mem_linkChildren_of_subset (hold : old.WellPlaced) (hnew : new.WellPlaced)
    (hsub : links ⊆ more) (hfree : ∀ m ∈ linkChildren threshold links old new,
      more.freeOld m.old = true ∧ more.freeNew m.new = true) :
    l ∈ linkChildren threshold more old new ↔ l ∈ linkChildren threshold links old new := by
  rw [mem_linkChildren, mem_linkChildren, freeOlds_of_subset hsub, freeNews_of_subset hsub]
  refine mem_linkSiblings_filter (nodup_freeOlds hold) (nodup_freeNews hnew) fun m hm => ?_
  have htype := (mem_freeOlds.1 (old_mem_of_mem_linkSiblings hm)).2.2
  exact hfree m (mem_linkChildren.2 (htype.symm ▸ hm))

end

end TreeDiff
