/-
# Linking everything below two joined entries

Below joined entries the children are linked in place, then the children of those that were linked,
and so on downwards.  The links made so far are handed from one subtree to the next, but the
subtrees have nothing in common: what is linked below two entries depends on the links before the
descent alone.  So the descent has a description in which no state is handed on, the relation
`InPlace`.  From it follow the laws of the descent: it stays below the two entries, joins nobody
twice, does not tell old from new, and does not depend on links that leave free whom it joins.
-/
import TreeDiff.Diff.Matching
import TreeDiff.Proofs.Children

namespace TreeDiff

/-- The links that are made in place below two joined entries, when `links` are there before. -/
inductive InPlace (threshold : Binary64) (links : Links) : Entry → Entry → Link → Prop where
  | child {old new : Entry} {l : Link} (hl : l ∈ linkChildren threshold links old new) :
      InPlace threshold links old new l
  | deeper {old new : Entry} {m l : Link} (hm : m ∈ linkChildren threshold links old new)
      (hl : InPlace threshold links m.old m.new l) : InPlace threshold links old new l

namespace InPlace

variable {threshold : Binary64} {links more : Links} {root old new old' new' e : Entry} {l m : Link}

/-! ## Where the links are -/

lemma old_mem (h : InPlace threshold links old new l) : l.old ∈ old.descendants := by
  induction h with
  | child hl => exact Entry.mem_descendants_of_mem_children (old_of_mem_linkChildren hl).1
  | deeper hm _ ih =>
    exact Entry.mem_descendants.2
      ⟨_, (old_of_mem_linkChildren hm).1, Entry.mem_preorder_of_mem_descendants ih⟩

lemma new_mem (h : InPlace threshold links old new l) : l.new ∈ new.descendants := by
  induction h with
  | child hl => exact Entry.mem_descendants_of_mem_children (new_of_mem_linkChildren hl).1
  | deeper hm _ ih =>
    exact Entry.mem_descendants.2
      ⟨_, (new_of_mem_linkChildren hm).1, Entry.mem_preorder_of_mem_descendants ih⟩

/-- Every link is made by one in-place stage, at the two entries or at entries joined below them. -/
lemma exists_stage (h : InPlace threshold links old new l) :
    l ∈ linkChildren threshold links old new ∨
      ∃ m, InPlace threshold links old new m ∧ l ∈ linkChildren threshold links m.old m.new := by
  induction h with
  | child hl => exact Or.inl hl
  | @deeper _ _ m _ hm _ ih =>
    rcases ih with hl | ⟨p, hp, hl⟩
    · exact Or.inr ⟨m, child hm, hl⟩
    · exact Or.inr ⟨p, deeper hm hp, hl⟩

lemma next (h : InPlace threshold links old new m)
    (hl : l ∈ linkChildren threshold links m.old m.new) :
    InPlace threshold links old new l := by
  induction h with
  | child hm => exact deeper hm (child hl)
  | deeper hm _ ih => exact deeper hm (ih hl)

lemma free (h : InPlace threshold links old new l) :
    links.freeOld l.old = true ∧ links.freeNew l.new = true := by
  rcases h.exists_stage with hl | ⟨m, -, hl⟩ <;>
    exact ⟨(old_of_mem_linkChildren hl).2, (new_of_mem_linkChildren hl).2⟩

/-- A link is made because of keys or similar texts, never as a move. -/
lemma kind_eq (h : InPlace threshold links old new l) : l.kind = .exact ∨ l.kind = .similar := by
  rcases h.exists_stage with hl | ⟨m, -, hl⟩ <;>
    exact (reason_of_mem_linkChildren hl).imp And.left And.left

/-- Below an entry that the descent does not reach nothing is linked. -/
lemma exists_of_old_mem_descendants (hwell : old.WellPlaced) (h : InPlace threshold links old new l)
    (he : e ∈ old.descendants) (hl : l.old ∈ e.descendants) :
    ∃ m, InPlace threshold links old new m ∧ m.old = e := by
  induction h with
  | @child old new l hl' =>
    exfalso
    obtain ⟨c, hc, hec⟩ := Entry.mem_descendants.1 he
    have hlc : l.old ∈ c.descendants := Entry.descendants_trans hec hl
    obtain rfl := hwell.eq_of_mem_children hc (old_of_mem_linkChildren hl').1
      (Entry.mem_preorder_of_mem_descendants hlc) (Entry.mem_preorder_self _) rfl
    exact (hwell.of_mem_children hc).seq_ne_of_mem_descendants hlc rfl
  | @deeper old new m l hm hml ih =>
    obtain ⟨c, hc, hec⟩ := Entry.mem_descendants.1 he
    have hmc := (old_of_mem_linkChildren hm).1
    obtain rfl : c = m.old := hwell.eq_of_mem_children hc hmc
      (Entry.preorder_trans hec (Entry.mem_preorder_of_mem_descendants hl))
      (Entry.mem_preorder_of_mem_descendants hml.old_mem) rfl
    rcases Entry.mem_preorder.1 hec with rfl | hec
    · exact ⟨m, child hm, rfl⟩
    · obtain ⟨p, hp, hpe⟩ := ih (hwell.of_mem_children hc) hec hl
      exact ⟨p, deeper hm hp, hpe⟩

lemma congr (h : InPlace threshold links old new l) (hsame : ∀ l, l ∈ links ↔ l ∈ more) :
    InPlace threshold more old new l := by
  induction h with
  | child hl => exact child (linkChildren_congr hsame ▸ hl)
  | deeper hm _ ih => exact deeper (linkChildren_congr hsame ▸ hm) ih

/-! ## The descent does not tell old from new -/

lemma swap_of (hold : old.WellPlaced) (hnew : new.WellPlaced)
    (h : InPlace threshold links old new l) : InPlace threshold links.swap new old l.swap := by
  induction h with
  | child hl => exact child ((swap_mem_linkChildren hold hnew).2 hl)
  | deeper hm _ ih =>
    refine deeper ((swap_mem_linkChildren hold hnew).2 hm) (ih ?_ ?_)
    · exact hold.of_mem_children (old_of_mem_linkChildren hm).1
    · exact hnew.of_mem_children (new_of_mem_linkChildren hm).1

/-- **The descent does not tell old from new.** -/
theorem swap_iff (hold : old.WellPlaced) (hnew : new.WellPlaced) :
    InPlace threshold links.swap new old l.swap ↔ InPlace threshold links old new l := by
  refine ⟨fun h => ?_, swap_of hold hnew⟩
  have hback := h.swap_of hnew hold
  rwa [Link.swap_swap, Links.swap_swap] at hback

lemma mirror_iff {back : Links} (h : back.MirrorOf links) (hold : old.WellPlaced)
    (hnew : new.WellPlaced) :
    InPlace threshold back new old l ↔ InPlace threshold links old new l.swap := by
  rw [← swap_iff hold hnew, Link.swap_swap]
  exact ⟨fun hl => hl.congr h, fun hl => hl.congr fun m => (h m).symm⟩

/-! ## Two descents -/

/-- When two descents join one old entry, they start at the same old entry, or one of them joins the
old entry at which the other one starts. -/
lemma meet_of_old_seq (hroot : root.WellPlaced) (ho : old ∈ root.preorder)
    (ho' : old' ∈ root.preorder)
    (hl : InPlace threshold links old new l) (hm : InPlace threshold more old' new' m)
    (hseq : l.old.seq = m.old.seq) : old = old' ∨
      (∃ q, InPlace threshold links old new q ∧ q.old = old') ∨
        ∃ q, InPlace threshold more old' new' q ∧ q.old = old := by
  have hlo := Entry.mem_preorder_of_mem_descendants hl.old_mem
  have hmo := Entry.mem_preorder_of_mem_descendants hm.old_mem
  have heq : l.old = m.old :=
    hroot.eq_of_seq (Entry.preorder_trans ho hlo) (Entry.preorder_trans ho' hmo) hseq
  rcases hroot.nested ho ho' hlo (heq ▸ hmo) with hin | hin
  · rcases Entry.mem_preorder.1 hin with hsame | hin
    · exact Or.inl hsame
    · exact Or.inr (Or.inr
        (hm.exists_of_old_mem_descendants (hroot.of_mem ho') hin (heq ▸ hl.old_mem)))
  · rcases Entry.mem_preorder.1 hin with hsame | hin
    · exact Or.inl hsame.symm
    · exact Or.inr (Or.inl
        (hl.exists_of_old_mem_descendants (hroot.of_mem ho) hin (heq ▸ hm.old_mem)))

/-- The same for the new entries. -/
lemma meet_of_new_seq (hroot : root.WellPlaced) (hn : new ∈ root.preorder)
    (hn' : new' ∈ root.preorder)
    (hold : old.WellPlaced) (hold' : old'.WellPlaced)
    (hl : InPlace threshold links old new l) (hm : InPlace threshold more old' new' m)
    (hseq : l.new.seq = m.new.seq) : new = new' ∨
      (∃ q, InPlace threshold links old new q ∧ q.new = new') ∨
        ∃ q, InPlace threshold more old' new' q ∧ q.new = new := by
  have hnew := hroot.of_mem hn
  have hnew' := hroot.of_mem hn'
  rcases meet_of_old_seq hroot hn hn' (hl.swap_of hold hnew) (hm.swap_of hold' hnew') hseq with
    hsame | ⟨q, hq, hqn⟩ | ⟨q, hq, hqn⟩
  · exact Or.inl hsame
  · exact Or.inr (Or.inl ⟨q.swap, (swap_iff hold hnew).1 hq, hqn⟩)
  · exact Or.inr (Or.inr ⟨q.swap, (swap_iff hold' hnew').1 hq, hqn⟩)

/-! ## No entry is joined twice -/

lemma eq_of_old (hold : old.WellPlaced) (hnew : new.WellPlaced)
    (hl : InPlace threshold links old new l) (hm : InPlace threshold links old new m)
    (hseq : l.old.seq = m.old.seq) : l = m := by
  -- an entry linked at this stage does not lie below another one linked at this stage
  have hstage : ∀ {old new : Entry} {l m p : Link}, old.WellPlaced →
      l ∈ linkChildren threshold links old new →
      p ∈ linkChildren threshold links old new →
      InPlace threshold links p.old p.new m → l.old.seq ≠ m.old.seq := by
    intro old new l m p hold hl hp hm hseq
    have hpc := (old_of_mem_linkChildren hp).1
    have heq : l.old = p.old := hold.eq_of_mem_children (old_of_mem_linkChildren hl).1 hpc
      (Entry.mem_preorder_self _) (Entry.mem_preorder_of_mem_descendants hm.old_mem) hseq
    exact (hold.of_mem_children hpc).seq_ne_of_mem_descendants hm.old_mem (heq ▸ hseq.symm)
  induction hl generalizing m with
  | child hl =>
    cases hm with
    | child hm => exact (oneToOne_linkChildren threshold links hold hnew).eq_of_old hl hm hseq
    | deeper hp hm => exact absurd hseq (hstage hold hl hp hm)
  | @deeper old new p l hp hl ih =>
    cases hm with
    | child hm => exact absurd hseq.symm (hstage hold hm hp hl)
    | @deeper _ _ q _ hq hm =>
      have hpc := (old_of_mem_linkChildren hp).1
      have hqc := (old_of_mem_linkChildren hq).1
      have heq : p.old = q.old := hold.eq_of_mem_children hpc hqc
        (Entry.mem_preorder_of_mem_descendants hl.old_mem)
        (Entry.mem_preorder_of_mem_descendants hm.old_mem) hseq
      obtain rfl := (oneToOne_linkChildren threshold links hold hnew).eq_of_old hp hq (heq ▸ rfl)
      exact ih (hold.of_mem_children hpc) (hnew.of_mem_children (new_of_mem_linkChildren hp).1)
        hm hseq

/-! ## Links made elsewhere -/

/-- **Links made elsewhere do not matter** as long as they leave free whom the descent joins. -/
theorem of_subset_iff (hold : old.WellPlaced) (hnew : new.WellPlaced) (hsub : links ⊆ more)
    (hfree : ∀ m, InPlace threshold links old new m →
      more.freeOld m.old = true ∧ more.freeNew m.new = true) :
    InPlace threshold more old new l ↔ InPlace threshold links old new l := by
  have hstage : ∀ {old new : Entry}, old.WellPlaced → new.WellPlaced →
      (∀ m, InPlace threshold links old new m →
        more.freeOld m.old = true ∧ more.freeNew m.new = true) →
      ∀ {m}, m ∈ linkChildren threshold more old new ↔
        m ∈ linkChildren threshold links old new := fun hold hnew hfree =>
    mem_linkChildren_of_subset hold hnew hsub fun m hm => hfree m (child hm)
  constructor
  · intro h
    induction h with
    | child hl => exact child ((hstage hold hnew hfree).1 hl)
    | deeper hm _ ih =>
      have hm' := (hstage hold hnew hfree).1 hm
      refine deeper hm' (ih ?_ ?_ fun p hp => hfree p (deeper hm' hp))
      · exact hold.of_mem_children (old_of_mem_linkChildren hm).1
      · exact hnew.of_mem_children (new_of_mem_linkChildren hm).1
  · intro h
    induction h with
    | child hl => exact child ((hstage hold hnew hfree).2 hl)
    | deeper hm _ ih =>
      refine deeper ((hstage hold hnew hfree).2 hm) (ih ?_ ?_ fun p hp => hfree p (deeper hm hp))
      · exact hold.of_mem_children (old_of_mem_linkChildren hm).1
      · exact hnew.of_mem_children (new_of_mem_linkChildren hm).1

/-! ## Descents along counterparts -/

/-- **The descent goes from counterparts to counterparts.**  If below every entry that is reached a
stage joins the children that are reached with their counterparts, and nothing else, then so does
the whole descent. -/
theorem iff_of_stages (reached : Entry → Prop) (kindOf : Entry → LinkKind) {f : Entry → Entry}
    (hstage : ∀ p ∈ old.preorder, reached p → ∀ l, l ∈ linkChildren threshold links p (f p) ↔
      l.kind = kindOf l.old ∧ l.old ∈ p.children ∧ reached l.old ∧ l.new = f l.old)
    (hup : ∀ p ∈ old.preorder, ∀ c ∈ p.children, reached c → reached p) (hreached : reached old) :
    InPlace threshold links old (f old) l ↔
      l.kind = kindOf l.old ∧ l.old ∈ old.descendants ∧ reached l.old ∧ l.new = f l.old := by
  constructor
  · intro hl
    have hdown : ∀ {p q : Entry} {l : Link}, InPlace threshold links p q l → p ∈ old.preorder →
        reached p → q = f p →
        l.kind = kindOf l.old ∧ l.old ∈ p.descendants ∧ reached l.old ∧ l.new = f l.old := by
      intro p q l hl
      induction hl with
      | child hl =>
        rintro hp hpr rfl
        obtain ⟨hkind, hold, hr, hnew⟩ := (hstage _ hp hpr _).1 hl
        exact ⟨hkind, Entry.mem_descendants_of_mem_children hold, hr, hnew⟩
      | deeper hm _ ih =>
        rintro hp hpr rfl
        obtain ⟨-, hold, hr, hnew⟩ := (hstage _ hp hpr _).1 hm
        have hm := Entry.child_mem_preorder (Entry.mem_preorder_self _) hold
        obtain ⟨hkind, hlold, hlr, hlnew⟩ := ih (Entry.preorder_trans hp hm) hr hnew
        exact ⟨hkind, Entry.descendants_trans hm hlold, hlr, hlnew⟩
    exact hdown hl (Entry.mem_preorder_self _) hreached rfl
  · rintro ⟨hkind, hold, hr, hnew⟩
    -- what lies above an entry that is reached is reached
    have habove : ∀ e ∈ old.preorder, l.old ∈ e.preorder → reached e := by
      intro e he hle
      induction e using Entry.induction_children with
      | step e ih =>
        rcases Entry.mem_preorder.1 hle with heq | hle
        · exact heq ▸ hr
        · obtain ⟨c, hc, hlc⟩ := Entry.mem_descendants.1 hle
          exact hup e he c hc (ih c hc (Entry.child_mem_preorder he hc) hlc)
    have hgo : ∀ p ∈ old.preorder, l.old ∈ p.descendants → InPlace threshold links p (f p) l := by
      intro p hp hlp
      induction p using Entry.induction_children with
      | step p ih =>
        have hpr := habove p hp (Entry.mem_preorder_of_mem_descendants hlp)
        obtain ⟨c, hc, hlc⟩ := Entry.mem_descendants.1 hlp
        have hcold := Entry.child_mem_preorder hp hc
        rcases Entry.mem_preorder.1 hlc with heq | hlc'
        · exact child ((hstage p hp hpr l).2 ⟨hkind, heq ▸ hc, hr, hnew⟩)
        · have hm : (⟨c, f c, kindOf c⟩ : Link) ∈ linkChildren threshold links p (f p) :=
            (hstage p hp hpr _).2 ⟨rfl, hc, habove c hcold hlc, rfl⟩
          exact deeper hm (ih c hc hcold hlc')
    exact hgo old (Entry.mem_preorder_self _) hold

end InPlace

/-! ## The descent as it is run -/

section

variable {threshold : Binary64} {links handed : Links} {old new : Entry} {made : List Link}
  {l : Link}

lemma linkBelow_eq (threshold : Binary64) (old new : Entry) (links : Links) :
    linkBelow threshold old new links =
      linkBelowEach threshold (linkChildren threshold links old new) old.children
        (links.joinAll (linkChildren threshold links old new)) := by
  cases old
  rfl

/-- Links that were handed on leave the descent below two entries alone. -/
def Undisturbed (links handed : Links) (old new : Entry) : Prop :=
  (∀ e ∈ old.descendants, links.freeOld e = true → handed.freeOld e = true) ∧
    ∀ e ∈ new.descendants, links.freeNew e = true → handed.freeNew e = true

lemma Undisturbed.inPlace_iff (h : Undisturbed links handed old new) (hold : old.WellPlaced)
    (hnew : new.WellPlaced) (hsub : links ⊆ handed) :
    InPlace threshold handed old new l ↔ InPlace threshold links old new l :=
  InPlace.of_subset_iff hold hnew hsub fun _ hm =>
    ⟨h.1 _ hm.old_mem hm.free.1, h.2 _ hm.new_mem hm.free.2⟩

/-- The links of a stage leave the descents below them alone. -/
lemma undisturbed_joinAll (hold : old.WellPlaced) (hnew : new.WellPlaced) {m : Link}
    (hm : m ∈ linkChildren threshold links old new) :
    Undisturbed links (links.joinAll (linkChildren threshold links old new)) m.old m.new := by
  constructor
  · intro e he hfree
    refine Links.freeOld_iff.2 fun l hl hseq => ?_
    rcases Links.mem_joinAll.1 hl with hl | hl
    · have hmc := (old_of_mem_linkChildren hm).1
      have heq : l.old = m.old := hold.eq_of_mem_children (old_of_mem_linkChildren hl).1 hmc
        (Entry.mem_preorder_self _) (Entry.mem_preorder_of_mem_descendants he) hseq
      exact (hold.of_mem_children hmc).seq_ne_of_mem_descendants he (heq ▸ hseq.symm)
    · exact Links.freeOld_iff.1 hfree l hl hseq
  · intro e he hfree
    refine Links.freeNew_iff.2 fun l hl hseq => ?_
    rcases Links.mem_joinAll.1 hl with hl | hl
    · have hmc := (new_of_mem_linkChildren hm).1
      have heq : l.new = m.new := hnew.eq_of_mem_children (new_of_mem_linkChildren hl).1 hmc
        (Entry.mem_preorder_self _) (Entry.mem_preorder_of_mem_descendants he) hseq
      exact (hnew.of_mem_children hmc).seq_ne_of_mem_descendants he (heq ▸ hseq.symm)
    · exact Links.freeNew_iff.1 hfree l hl hseq

/-- What the descent below one link adds leaves the descents below its neighbours alone. -/
lemma Undisturbed.of_neighbour (hold : old.WellPlaced) (hnew : new.WellPlaced) {m p : Link}
    (hm : m ∈ linkChildren threshold links old new) (hp : p ∈ linkChildren threshold links old new)
    (hne : m ≠ p) (h : Undisturbed links handed p.old p.new) {after : Links}
    (hafter : ∀ l ∈ after, l ∈ handed ∨ InPlace threshold links m.old m.new l) :
    Undisturbed links after p.old p.new := by
  have hone := oneToOne_linkChildren threshold links hold hnew
  constructor
  · intro e he hfree
    refine Links.freeOld_iff.2 fun l hl hseq => ?_
    rcases hafter l hl with hl | hl
    · exact Links.freeOld_iff.1 (h.1 e he hfree) l hl hseq
    · have heq := hold.eq_of_mem_children (old_of_mem_linkChildren hm).1
        (old_of_mem_linkChildren hp).1 (Entry.mem_preorder_of_mem_descendants hl.old_mem)
        (Entry.mem_preorder_of_mem_descendants he) hseq
      exact hne (hone.eq_of_old hm hp (heq ▸ rfl))
  · intro e he hfree
    refine Links.freeNew_iff.2 fun l hl hseq => ?_
    rcases hafter l hl with hl | hl
    · exact Links.freeNew_iff.1 (h.2 e he hfree) l hl hseq
    · have heq := hnew.eq_of_mem_children (new_of_mem_linkChildren hm).1
        (new_of_mem_linkChildren hp).1 (Entry.mem_preorder_of_mem_descendants hl.new_mem)
        (Entry.mem_preorder_of_mem_descendants he) hseq
      exact hne (hone.eq_of_new hm hp (heq ▸ rfl))

/-- The induction runs over the children that are still to be visited; `handed` are the links that
the visits before have left. -/
lemma mem_linkBelowEach {children : List Entry} (hold : old.WellPlaced) (hnew : new.WellPlaced)
    (ih : ∀ c ∈ old.children, c.WellPlaced → ∀ d, d.WellPlaced → ∀ links l,
      l ∈ linkBelow threshold c d links ↔ l ∈ links ∨ InPlace threshold links c d l)
    (hchildren : children.Sublist old.children) (hsub : links ⊆ handed)
    (hfree : ∀ m ∈ linkChildren threshold links old new, m.old ∈ children →
      Undisturbed links handed m.old m.new) :
    l ∈ linkBelowEach threshold (linkChildren threshold links old new) children handed ↔
      l ∈ handed ∨ ∃ m ∈ linkChildren threshold links old new,
        m.old ∈ children ∧ InPlace threshold links m.old m.new l := by
  induction children generalizing handed with
  | nil => simp [linkBelowEach]
  | cons c rest ihrest =>
    have hc : c ∈ old.children := hchildren.subset List.mem_cons_self
    have hrest : rest.Sublist old.children := (List.sublist_cons_self c rest).trans hchildren
    have hnotin : c ∉ rest := by
      have hnodup := hold.nodup_children.sublist (hchildren.map Entry.seq)
      rw [List.map_cons, List.nodup_cons] at hnodup
      exact fun hin => hnodup.1 (List.mem_map_of_mem hin)
    rw [linkBelowEach]
    cases hfind : (linkChildren threshold links old new).find? fun m => m.old.seq = c.seq with
    | none =>
      have hskip : ∀ m ∈ linkChildren threshold links old new, m.old ≠ c := by
        rintro m hm rfl
        simpa using List.find?_eq_none.1 hfind m hm
      rw [ihrest hrest hsub fun m hm hin => hfree m hm (List.mem_cons_of_mem c hin)]
      refine or_congr Iff.rfl (exists_congr fun m => and_congr_right fun hm => ?_)
      rw [List.mem_cons, or_iff_right (hskip m hm)]
    | some m =>
      have hm := List.mem_of_find?_eq_some hfind
      have hmc := old_of_mem_linkChildren hm
      have hseq : m.old.seq = c.seq := by simpa using List.find?_some hfind
      obtain rfl : m.old = c := List.inj_on_of_nodup_map hold.nodup_children hmc.1 hc hseq
      have hmnew := hnew.of_mem_children (new_of_mem_linkChildren hm).1
      have hvisit : ∀ l, l ∈ linkBelow threshold m.old m.new handed ↔
          l ∈ handed ∨ InPlace threshold links m.old m.new l := fun l => by
        rw [ih m.old hc (hold.of_mem_children hc) m.new hmnew,
          (hfree m hm List.mem_cons_self).inPlace_iff (hold.of_mem_children hc) hmnew hsub]
      have hleft : ∀ p ∈ linkChildren threshold links old new, p.old ∈ rest →
          Undisturbed links (linkBelow threshold m.old m.new handed) p.old p.new := by
        intro p hp hin
        refine (hfree p hp (List.mem_cons_of_mem _ hin)).of_neighbour hold hnew hm hp ?_
          fun l hl => (hvisit l).1 hl
        rintro rfl
        exact hnotin hin
      simp only []
      -- one visit, then the rest with the links it leaves
      rw [ihrest hrest (fun l hl => (hvisit l).2 (Or.inl (hsub hl))) hleft, hvisit, or_assoc]
      refine or_congr Iff.rfl ⟨?_, ?_⟩
      · rintro (hl | ⟨p, hp, hin, hl⟩)
        · exact ⟨m, hm, List.mem_cons_self, hl⟩
        · exact ⟨p, hp, List.mem_cons_of_mem _ hin, hl⟩
      · rintro ⟨p, hp, hin, hl⟩
        rcases List.mem_cons.1 hin with hpm | hin
        · have hone := oneToOne_linkChildren threshold links hold hnew
          obtain rfl := hone.eq_of_old hp hm (hpm ▸ rfl)
          exact Or.inl hl
        · exact Or.inr ⟨p, hp, hin, hl⟩

/-- **The descent adds exactly the links of its description.** -/
theorem mem_linkBelow (hold : old.WellPlaced) (hnew : new.WellPlaced) :
    l ∈ linkBelow threshold old new links ↔ l ∈ links ∨ InPlace threshold links old new l := by
  induction old using Entry.induction_children generalizing new links l with
  | step old ih =>
    rw [linkBelow_eq, mem_linkBelowEach hold hnew (fun c hc hcw d hd links l => ih c hc hcw hd)
      (List.Sublist.refl _) (fun l hl => Links.mem_joinAll.2 (Or.inr hl))
      fun m hm _ => undisturbed_joinAll hold hnew hm, Links.mem_joinAll]
    constructor
    · rintro ((hl | hl) | ⟨m, hm, -, hl⟩)
      · exact Or.inr (.child hl)
      · exact Or.inl hl
      · exact Or.inr (.deeper hm hl)
    · rintro (hl | hl)
      · exact Or.inl (Or.inr hl)
      · cases hl with
        | child hl => exact Or.inl (Or.inl hl)
        | deeper hm hl => exact Or.inr ⟨_, hm, (old_of_mem_linkChildren hm).1, hl⟩

lemma mem_linkInPlace (hold : old.WellPlaced) (hnew : new.WellPlaced) :
    l ∈ linkInPlace threshold old new ↔ l = ⟨old, new, .exact⟩ ∨
      InPlace threshold [⟨old, new, .exact⟩] old new l := by
  rw [linkInPlace, mem_linkBelow hold hnew, List.mem_singleton]

/-! ## The descent from the roots -/

lemma freeOld_of_mem_descendants (hold : old.WellPlaced) {e : Entry} (he : e ∈ old.descendants) :
    Links.freeOld [⟨old, new, .exact⟩] e = true := by
  refine Links.freeOld_iff.2 fun m hm hseq => ?_
  obtain rfl := List.mem_singleton.1 hm
  exact hold.seq_ne_of_mem_descendants he hseq.symm

lemma freeNew_of_mem_descendants (hnew : new.WellPlaced) {e : Entry} (he : e ∈ new.descendants) :
    Links.freeNew [⟨old, new, .exact⟩] e = true := by
  refine Links.freeNew_iff.2 fun m hm hseq => ?_
  obtain rfl := List.mem_singleton.1 hm
  exact hnew.seq_ne_of_mem_descendants he hseq.symm

/-- If every stage below entries that are reached joins the children that are reached with their
counterparts, then the links in place are those of all entries that are reached. -/
lemma mem_linkInPlace_of_stages (hold : old.WellPlaced) (hnew : new.WellPlaced)
    (reached : Entry → Prop) (kindOf : Entry → LinkKind) {f : Entry → Entry}
    (hstage : ∀ p ∈ old.preorder, reached p →
      ∀ l, l ∈ linkChildren threshold [⟨old, new, .exact⟩] p (f p) ↔
        l.kind = kindOf l.old ∧ l.old ∈ p.children ∧ reached l.old ∧ l.new = f l.old)
    (hup : ∀ p ∈ old.preorder, ∀ c ∈ p.children, reached c → reached p) (hreached : reached old)
    (hroot : f old = new) (hkind : kindOf old = .exact) :
    l ∈ linkInPlace threshold old new ↔
      l.kind = kindOf l.old ∧ l.old ∈ old.preorder ∧ reached l.old ∧ l.new = f l.old := by
  have hdescent := InPlace.iff_of_stages reached kindOf hstage hup hreached (l := l)
  rw [hroot] at hdescent
  rw [mem_linkInPlace hold hnew, hdescent]
  constructor
  · rintro (rfl | ⟨hlkind, hlold, hlreached, hlnew⟩)
    · exact ⟨hkind.symm, Entry.mem_preorder_self _, hreached, hroot.symm⟩
    · exact ⟨hlkind, Entry.mem_preorder_of_mem_descendants hlold, hlreached, hlnew⟩
  · rintro ⟨hlkind, hlold, hlreached, hlnew⟩
    rcases Entry.mem_preorder.1 hlold with heq | hlold
    · rw [heq, hkind] at hlkind
      rw [heq, hroot] at hlnew
      refine Or.inl ?_
      rw [← heq, ← hlnew, ← hlkind]
    · exact Or.inr ⟨hlkind, hlold, hlreached, hlnew⟩

end

end TreeDiff
