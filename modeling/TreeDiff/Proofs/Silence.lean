/-
# Comparisons without changes

When a comparison reports nothing, every entry is joined, and joined entries have the same type, the
same intents and the same breadcrumb.  The links are then a one-to-one relation between the entries
of the two trees.  It takes the children of an entry to the children of its counterpart, with one
exception: an entry that was joined as a move is not reported if its old and its new parent have the
same breadcrumb below them.  Breadcrumbs are texts, and parents without names share them easily, so
an entry may go over from one parent to another without a change being reported.
-/
import TreeDiff.Proofs.Accounts
import TreeDiff.Proofs.Leftovers
import TreeDiff.Proofs.Rearrangements
import TreeDiff.Proofs.Shapes

namespace TreeDiff

/-- The new entry that an old one is joined with. -/
def Links.partner (links : Links) (e : Entry) : Entry :=
  ((links.ofOld? e).map Link.new).getD e

section

variable {threshold : Binary64} {limit : Option Int} {links : Links} {old new : Entry}
  {e p c : Entry} {l : Link}

/-! ## Joined entries -/

namespace Links.Sound

lemma partner_eq (hsound : links.Sound threshold old new) (hl : l ∈ links) :
    links.partner l.old = l.new := by
  rw [partner, hsound.oneToOne.ofOld?_eq_some_iff.2 ⟨hl, rfl⟩]
  rfl

lemma partner_root (hsound : links.Sound threshold old new) : links.partner old = new :=
  hsound.partner_eq hsound.roots_joined

/-- The link of an entry that is not free. -/
lemma exists_link (hsound : links.Sound threshold old new) (hold : old.WellPlaced)
    (he : e ∈ old.preorder) (hjoined : links.freeOld e = false) :
    ∃ kind, ⟨e, links.partner e, kind⟩ ∈ links := by
  rw [← Bool.not_eq_true, freeOld_iff] at hjoined
  push Not at hjoined
  obtain ⟨l, hl, hseq⟩ := hjoined
  obtain rfl := hold.eq_of_seq (hsound.placed l hl).1 he hseq
  exact ⟨l.kind, hsound.partner_eq hl ▸ hl⟩

end Links.Sound

/-! ## What is true when nothing is reported -/

/-- The links of a comparison without changes. -/
structure Links.Silent (threshold : Binary64) (links : Links) (old new : Entry) : Prop where
  sound : links.Sound threshold old new
  old_joined : ∀ e ∈ old.preorder, links.freeOld e = false
  new_joined : ∀ e ∈ new.preorder, links.freeNew e = false
  unchanged : ∀ l ∈ links, l ≠ ⟨old, new, .exact⟩ → l.change? = none

/-- **If nothing is reported, everything is joined and nothing differs.** -/
theorem silent_of_classify_eq_nil (hold : old.WellPlaced) (hnew : new.WellPlaced)
    (hsound : links.Sound threshold old new) (hnil : classify limit links old new = []) :
    links.Silent threshold old new := by
  have hempty : origins links old new = [] := by
    rwa [← map_change_origins hold hsound, List.map_eq_nil_iff] at hnil
  have hroots := hsound.roots_not_free
  -- a free entry would be reported at the top of its chain
  refine ⟨hsound, ?_, ?_, ?_⟩
  · intro e he
    by_contra hfree
    rw [Bool.not_eq_false] at hfree
    obtain ⟨top, ⟨hparent, hchain⟩, -⟩ := hold.existsUnique_chainTo hroots.1 he hfree
    have hmem : .removal top ∈ origins links old new :=
      (removal_mem_origins hold hsound).2 ⟨hchain.free_top, hparent⟩
    rw [hempty] at hmem
    exact List.not_mem_nil hmem
  · intro e he
    by_contra hfree
    rw [Bool.not_eq_false] at hfree
    obtain ⟨top, ⟨hparent, hchain⟩, -⟩ := hnew.existsUnique_chainTo hroots.2 he hfree
    have hmem : .addition top ∈ origins links old new :=
      (addition_mem_origins hnew).2 ⟨hchain.free_top, hparent⟩
    rw [hempty] at hmem
    exact List.not_mem_nil hmem
  · intro l hl hne
    cases hchange : l.change? with
    | none => rfl
    | some kind =>
      have hmem := (pair_mem_origins hold hsound).2 ⟨hl, hne, hchange⟩
      rw [hempty] at hmem
      exact absurd hmem List.not_mem_nil

/-- Joined entries that are not reported have the same name and the same intents, and if they were
joined as a move, the same breadcrumb. -/
lemma Link.Justified.of_change?_eq_none (h : l.Justified threshold links)
    (hnone : l.change? = none) : l.old.identifier = l.new.identifier ∧
      (l.kind = .moved → l.old.path = l.new.path) ∧
      l.old.outline.intents = l.new.outline.intents := by
  rw [h.change?_eq] at hnone
  split_ifs at hnone with hname hmoved hintents
  exact ⟨not_not.1 hname, fun hkind => not_not.1 fun hpath => hmoved ⟨hkind, hpath⟩,
    not_not.1 hintents⟩

namespace Links.Silent

variable (hold : old.WellPlaced) (hnew : new.WellPlaced)

include hold in
lemma exists_link (h : links.Silent threshold old new) (he : e ∈ old.preorder) :
    ∃ kind, ⟨e, links.partner e, kind⟩ ∈ links :=
  h.sound.exists_link hold he (h.old_joined e he)

include hold hnew in
/-- The links are a one-to-one relation between the entries. -/
lemma bijOn (h : links.Silent threshold old new) :
    Set.BijOn links.partner {e | e ∈ old.preorder} {e | e ∈ new.preorder} := by
  refine ⟨?_, ?_, ?_⟩
  · intro e he
    obtain ⟨kind, hl⟩ := h.exists_link hold he
    exact (h.sound.placed _ hl).2
  · intro a ha b hb hab
    obtain ⟨kind, hl⟩ := h.exists_link hold ha
    obtain ⟨kind', hm⟩ := h.exists_link hold hb
    exact congrArg Link.old (h.sound.oneToOne.eq_of_new hl hm (congrArg Entry.seq hab))
  · intro n hn
    have hjoined := h.new_joined n hn
    rw [← Bool.not_eq_true, freeNew_iff] at hjoined
    push Not at hjoined
    obtain ⟨l, hl, hseq⟩ := hjoined
    refine ⟨l.old, (h.sound.placed l hl).1, ?_⟩
    rw [h.sound.partner_eq hl]
    exact hnew.eq_of_seq (h.sound.placed l hl).2 hn hseq

include hold in
lemma exists_link_below (h : links.Silent threshold old new) (he : e ∈ old.descendants) :
    ∃ kind, ⟨e, links.partner e, kind⟩ ∈ links ∧
      (⟨e, links.partner e, kind⟩ : Link) ≠ ⟨old, new, .exact⟩ := by
  obtain ⟨kind, hl⟩ := h.exists_link hold (Entry.mem_preorder_of_mem_descendants he)
  refine ⟨kind, hl, fun heq => ?_⟩
  exact hold.seq_ne_of_mem_descendants he (congrArg (fun l => l.old.seq) heq)

include hold in
lemma partner_mem_descendants (h : links.Silent threshold old new) (he : e ∈ old.descendants) :
    links.partner e ∈ new.descendants := by
  obtain ⟨kind, hl, hne⟩ := h.exists_link_below hold he
  exact (h.sound.mem_descendants hl hne).2

include hold in
/-- What the link of an entry below the root tells. -/
lemma link_of_mem_descendants (h : links.Silent threshold old new) (he : e ∈ old.descendants) :
    ∃ kind, ⟨e, links.partner e, kind⟩ ∈ links ∧
      Link.Justified threshold links ⟨e, links.partner e, kind⟩ ∧
      e.identifier = (links.partner e).identifier ∧
      (kind = .moved → e.path = (links.partner e).path) ∧
      e.outline.intents = (links.partner e).outline.intents := by
  obtain ⟨kind, hl, hne⟩ := h.exists_link_below hold he
  have hjust := h.sound.justified _ hl hne
  exact ⟨kind, hl, hjust, hjust.of_change?_eq_none (h.unchanged _ hl hne)⟩

end Links.Silent

end

/-! ## Breadcrumbs and parents -/

namespace Entry

/-- One tree looks like another one: entries correspond to entries of the same type, with the same
intents and the same breadcrumb.  A child of an entry corresponds to a child of the counterpart, or,
if it has a name, to a child of another entry with the same breadcrumb below it. -/
structure Lookalike (old new : Entry) (f : Entry → Entry) : Prop where
  bijOn : Set.BijOn f {e | e ∈ old.preorder} {e | e ∈ new.preorder}
  root : f old = new
  type_eq : ∀ e ∈ old.preorder, (f e).type = e.type
  intents_eq : ∀ e ∈ old.preorder, (f e).outline.intents = e.outline.intents
  path_eq : ∀ e ∈ old.preorder, (f e).path = e.path
  children : ∀ p ∈ old.preorder, ∀ c ∈ p.children, f c ∈ (f p).children ∨
    c.isIdentified = true ∧ ∃ q ∈ new.preorder, q ≠ f p ∧ f c ∈ q.children ∧
      q.pathOfChildren = (f p).pathOfChildren

/-- Whether entries with named children are told from all others by the breadcrumbs below them. -/
def TellsParentsApart (root : Entry) : Prop :=
  ∀ p ∈ root.preorder, ∀ q ∈ root.preorder, (∃ c ∈ q.children, c.isIdentified = true) →
    p.pathOfChildren = q.pathOfChildren → p = q

/-- If breadcrumbs tell the parents apart, only the order of siblings can be different. -/
lemma Lookalike.counterparts {old new : Entry} {f : Entry → Entry} (h : Lookalike old new f)
    (hapart : new.TellsParentsApart) : Counterparts old new f := by
  refine ⟨h.bijOn, h.root, fun p hp c hc => ?_⟩
  rcases h.children p hp c hc with hstay | ⟨hid, q, hq, hne, hmoved, hpath⟩
  · exact hstay
  · have hid' : (f c).isIdentified = true := by
      have hintents := h.intents_eq c (child_mem_preorder hp hc)
      rwa [isIdentified, identifier, Outline.identifier, hintents]
    exact absurd (hapart (f p) (h.bijOn.mapsTo hp) q hq ⟨f c, hmoved, hid'⟩ hpath.symm).symm hne

lemma pathOfChildren_root (o : Outline) : (root o).pathOfChildren = "" := by
  cases o
  rfl

/-- Below the root, what breadcrumbs continue with depends on breadcrumb and label alone. -/
lemma pathOfChildren_congr {o o' : Outline} {a b : Entry} (ha : a ∈ (root o).descendants)
    (hb : b ∈ (root o').descendants) (hpath : a.path = b.path)
    (hlabel : a.outline.label = b.outline.label) : a.pathOfChildren = b.pathOfChildren := by
  obtain ⟨p, hp, hap⟩ := exists_parent ha
  obtain ⟨q, hq, hbq⟩ := exists_parent hb
  rw [pathOfChildren, pathOfChildren, (wellPlaced_root o).parent_eq p hp a hap,
    (wellPlaced_root o').parent_eq q hq b hbq, hpath, hlabel]
  rfl

end Entry

namespace Links.Silent

variable {threshold : Binary64} {links : Links} {old new : Outline} {e p c : Entry}

lemma type_eq (h : links.Silent threshold (.root old) (.root new))
    (htype : (Entry.root old).type = (Entry.root new).type)
    (he : e ∈ (Entry.root old).preorder) : (links.partner e).type = e.type := by
  rcases Entry.mem_preorder.1 he with rfl | he
  · rw [h.sound.partner_root, htype]
  · obtain ⟨kind, -, hjust, -⟩ := h.link_of_mem_descendants (Entry.wellPlaced_root old) he
    exact hjust.type_eq.symm

lemma intents_eq (h : links.Silent threshold (.root old) (.root new))
    (hintents : (Entry.root old).outline.intents = (Entry.root new).outline.intents)
    (he : e ∈ (Entry.root old).preorder) :
    (links.partner e).outline.intents = e.outline.intents := by
  rcases Entry.mem_preorder.1 he with rfl | he
  · rw [h.sound.partner_root, hintents]
  · obtain ⟨kind, -, -, -, -, hsame⟩ :=
      h.link_of_mem_descendants (Entry.wellPlaced_root old) he
    exact hsame.symm

/-- What is joined exactly stays below the same parent. -/
lemma partner_mem_children (h : links.Silent threshold (.root old) (.root new))
    (hp : p ∈ (Entry.root old).preorder) (hc : c ∈ p.children)
    (hparents : links.JoinsParents ⟨c, links.partner c, .exact⟩) :
    links.partner c ∈ (links.partner p).children := by
  have hold := Entry.wellPlaced_root old
  have hnew := Entry.wellPlaced_root new
  obtain ⟨a, b, ha, hb, m, hm, rfl, rfl⟩ := hparents
  have hseq : m.old.seq = p.seq := Option.some.inj (ha.symm.trans (hold.parent_eq p hp c hc))
  obtain rfl : m.old = p := hold.eq_of_seq (h.sound.placed m hm).1 hp hseq
  rw [h.sound.partner_eq hm]
  exact (hnew.mem_children_iff (h.sound.placed m hm).2
    (h.partner_mem_descendants hold (Entry.child_mem_descendants hp hc))).2 hb

/-- The breadcrumbs below joined entries are the same if the breadcrumbs of the entries are. -/
lemma pathOfChildren_eq (h : links.Silent threshold (.root old) (.root new))
    (hp : p ∈ (Entry.root old).preorder) (hpath : (links.partner p).path = p.path) :
    (links.partner p).pathOfChildren = p.pathOfChildren := by
  rcases Entry.mem_preorder.1 hp with rfl | hp
  · rw [h.sound.partner_root, Entry.pathOfChildren_root, Entry.pathOfChildren_root]
  · have hold := Entry.wellPlaced_root old
    obtain ⟨kind, -, hjust, hname, -⟩ := h.link_of_mem_descendants hold hp
    refine Entry.pathOfChildren_congr (h.partner_mem_descendants hold hp) hp hpath ?_
    have htype : p.outline.type = (links.partner p).outline.type := hjust.type_eq
    have hname : p.outline.identifier = (links.partner p).outline.identifier := hname
    rw [Outline.label, Outline.label, htype, hname]

/-- Joined entries have the same breadcrumb. -/
lemma path_eq (h : links.Silent threshold (.root old) (.root new)) :
    ∀ e ∈ (Entry.root old).preorder, (links.partner e).path = e.path := by
  -- down the old tree: a breadcrumb is continued in place, and compared where an entry moved
  refine Entry.forall_mem_preorder ?_ fun p hp hpath c hc => ?_
  · rw [h.sound.partner_root]
    cases old
    cases new
    rfl
  · obtain ⟨kind, hl, hjust, hname, hmoved, -⟩ :=
      h.link_of_mem_descendants (Entry.wellPlaced_root old) (Entry.child_mem_descendants hp hc)
    rcases hjust.kind_of_identifier_eq hname with ⟨hkind, hparents⟩ | ⟨hkind, -⟩
    · have hc' := h.partner_mem_children hp hc hparents
      have hp' := (h.bijOn (Entry.wellPlaced_root old) (Entry.wellPlaced_root new)).mapsTo hp
      rw [Entry.path_of_mem_children hp hc, Entry.path_of_mem_children hp' hc',
        h.pathOfChildren_eq hp hpath]
    · exact (hmoved hkind).symm

end Links.Silent

/-! ## Comparisons without changes -/

section

variable {threshold : Binary64} {old new : Outline}

/-- **If nothing is reported of two trees with the same roots, they look alike.** -/
theorem lookalike_of_silent
    (h : Links.Silent threshold (linkTrees threshold (.root old) (.root new)) (.root old)
      (.root new))
    (htype : (Entry.root old).type = (Entry.root new).type)
    (hintents : (Entry.root old).outline.intents = (Entry.root new).outline.intents) :
    Entry.Lookalike (.root old) (.root new)
      (linkTrees threshold (.root old) (.root new)).partner := by
  have hold := Entry.wellPlaced_root old
  have hnew := Entry.wellPlaced_root new
  refine ⟨h.bijOn hold hnew, h.sound.partner_root, fun e => h.type_eq htype,
    fun e => h.intents_eq hintents, h.path_eq, fun p hp c hc => ?_⟩
  have hcold := Entry.child_mem_descendants hp hc
  obtain ⟨kind, hl, hjust, hname, -⟩ := h.link_of_mem_descendants hold hcold
  rcases hjust.kind_of_identifier_eq hname with ⟨-, hparents⟩ | ⟨hkind, hid⟩
  · exact Or.inl (h.partner_mem_children hp hc hparents)
  · obtain ⟨q, hq, hcq⟩ := Entry.exists_parent (h.partner_mem_descendants hold hcold)
    refine Or.inr ⟨hid, q, hq, ?_, hcq, ?_⟩
    · -- a move between joined parents would have been made in place
      rintro rfl
      obtain ⟨kind', hm⟩ := h.exists_link hold hp
      rcases kind_of_mem_children hold hnew hl hm hc hcq with hstay | hstay
      · exact absurd (hkind.symm.trans hstay) (by decide)
      · exact absurd (hkind.symm.trans hstay) (by decide)
    · rw [← Entry.path_of_mem_children hq hcq, h.path_eq c (Entry.child_mem_preorder hp hc),
        Entry.path_of_mem_children hp hc, h.pathOfChildren_eq hp (h.path_eq p hp)]

end

/-- Two trees without changes, if the candidates for a move are found in order. -/
lemma Differ.diff_eq_nil_of_sorted {d : Differ} {fullText : Bool} {old new : Node}
    (hsorted : (foundCandidates d.threshold (linkInPlace d.threshold
        (.root (.ofNode d.schema old)) (.root (.ofNode d.schema new)))
      (.root (.ofNode d.schema old)) (.root (.ofNode d.schema new))).Pairwise fun c d =>
        lexNotAfter c.key d.key = true)
    (hnil : classify (d.limit fullText) ((foundCandidates d.threshold (linkInPlace d.threshold
        (.root (.ofNode d.schema old)) (.root (.ofNode d.schema new)))
      (.root (.ofNode d.schema old)) (.root (.ofNode d.schema new))).foldl (acceptMove d.threshold)
        (linkInPlace d.threshold (.root (.ofNode d.schema old)) (.root (.ofNode d.schema new))))
      (.root (.ofNode d.schema old)) (.root (.ofNode d.schema new)) = []) :
    d.diff fullText (some old) (some new) = .ok ⟨[]⟩ := by
  have hperm : (d.diffOutlines fullText (.ofNode d.schema old) (.ofNode d.schema new)).changes.Perm
      [] := hnil ▸ perm_changes_of_sorted hsorted
  exact congrArg Except.ok (congrArg Diff.mk hperm.eq_nil)

/-- **What a comparison without changes certifies.**  If nothing is reported of two trees with the
same root, the one looks like the other: entries that correspond have the same type, intents and
breadcrumb, and whatever went over to another parent has a name, and a parent with the same
breadcrumb below it.  If breadcrumbs tell such parents apart, the trees are equal up to the order of
siblings. -/
theorem lookalike_of_no_changes (d : Differ) (fullText : Bool) (old new : Node)
    (htype : old.type = new.type) (hintents : old.intents d.schema = new.intents d.schema)
    (h : d.diff fullText (some old) (some new) = .ok ⟨[]⟩) :
    ∃ f, Entry.Lookalike (.root (.ofNode d.schema old)) (.root (.ofNode d.schema new)) f ∧
      ((Entry.root (.ofNode d.schema new)).TellsParentsApart →
        Entry.Counterparts (.root (.ofNode d.schema old)) (.root (.ofNode d.schema new)) f) := by
  have hold := Entry.wellPlaced_root (.ofNode d.schema old)
  have hnew := Entry.wellPlaced_root (.ofNode d.schema new)
  have hsound := (Links.Run.linkTrees hold hnew d.threshold).sound
  have hnil : classify (d.limit fullText) (linkTrees d.threshold (.root (.ofNode d.schema old))
      (.root (.ofNode d.schema new))) (.root (.ofNode d.schema old))
        (.root (.ofNode d.schema new)) = [] := by
    have hchanges := congrArg Diff.changes (Except.ok.inj h)
    have hperm := (List.mergeSort_perm (classify (d.limit fullText) (linkTrees d.threshold
      (.root (.ofNode d.schema old)) (.root (.ofNode d.schema new)))
      (.root (.ofNode d.schema old)) (.root (.ofNode d.schema new))) Change.notAfter).symm
    exact (hperm.trans (List.Perm.of_eq hchanges)).eq_nil
  have hlook := lookalike_of_silent (silent_of_classify_eq_nil hold hnew hsound hnil) htype hintents
  exact ⟨_, hlook, hlook.counterparts⟩

/-- The functions in the other order, as they were. -/
def Node.afterExchange : Node := .programOf [.ofFunction "g" "2", .ofFunction "f" "1"]

theorem counterparts_twoFunctions_afterExchange :
    Differ.diff (.usual .functions) false (some .twoFunctions) (some .afterExchange) = .ok ⟨[]⟩ ∧
      ∃ f, Entry.Counterparts (.root (.ofNode .functions .twoFunctions))
        (.root (.ofNode .functions .afterExchange)) f := by
  have hdiff : Differ.diff (.usual .functions) false (some .twoFunctions) (some .afterExchange) =
      .ok ⟨[]⟩ := Differ.diff_eq_nil_of_sorted (by decide +kernel) (by decide +kernel)
  obtain ⟨f, -, hcounterparts⟩ :=
    lookalike_of_no_changes (.usual .functions) false .twoFunctions .afterExchange rfl
      (by decide +kernel) hdiff
  have hapart : ∀ p ∈ (Entry.root (.ofNode .functions .afterExchange)).preorder,
      ∀ q ∈ (Entry.root (.ofNode .functions .afterExchange)).preorder,
        (∃ c ∈ q.children, c.isIdentified = true) → p.pathOfChildren = q.pathOfChildren →
          p.seq = q.seq := by decide +kernel
  refine ⟨hdiff, f, hcounterparts fun p hp q hq hid hpath => ?_⟩
  exact (Entry.wellPlaced_root _).eq_of_seq hp hq (hapart p hp q hq hid hpath)

/-! ## A function that goes over to another block -/

/-- Two functions in the first of two blocks. -/
def Node.beforeTransfer : Node :=
  .programOf [.blockOf [.ofFunction "f" "1", .ofFunction "g" "2"], .blockOf []]

/-- One function in each of the two blocks. -/
def Node.afterTransfer : Node :=
  .programOf [.blockOf [.ofFunction "f" "1"], .blockOf [.ofFunction "g" "2"]]

/-- **A move between blocks is not reported.**  The second function goes over to the other block.
It is joined as a move, but since blocks have no names, its breadcrumb stays the same. -/
theorem not_counterparts_beforeTransfer_afterTransfer :
    Node.beforeTransfer.type = Node.afterTransfer.type ∧
    Node.beforeTransfer.intents .functions = Node.afterTransfer.intents .functions ∧
    Differ.diff (.usual .functions) false (some .beforeTransfer) (some .afterTransfer) =
      .ok ⟨[]⟩ ∧
    ¬∃ f, Entry.Counterparts (.root (.ofNode .functions .beforeTransfer))
        (.root (.ofNode .functions .afterTransfer)) f ∧
      ∀ e ∈ (Entry.root (.ofNode .functions .beforeTransfer)).preorder, (f e).type = e.type ∧
        (f e).outline.intents = e.outline.intents := by
  refine ⟨rfl, by decide +kernel, Differ.diff_eq_nil_of_sorted (by decide +kernel)
    (by decide +kernel), ?_⟩
  rintro ⟨f, hf, hsame⟩
  have hbefore : ∃ p ∈ (Entry.root (.ofNode .functions .beforeTransfer)).preorder,
      ∃ a ∈ p.children, ∃ b ∈ p.children, a.type = "function" ∧ b.type = "function" ∧
        a.seq ≠ b.seq := by decide +kernel
  have hafter : ∀ q ∈ (Entry.root (.ofNode .functions .afterTransfer)).preorder,
      ∀ a ∈ q.children, ∀ b ∈ q.children, a.type = "function" → b.type = "function" →
        a.seq = b.seq := by decide +kernel
  -- two functions have one parent before, but none has two functions after
  obtain ⟨p, hp, a, ha, b, hb, hatype, hbtype, hne⟩ := hbefore
  have haold := Entry.child_mem_preorder hp ha
  have hbold := Entry.child_mem_preorder hp hb
  have hseq := hafter (f p) (hf.mem hp) (f a) (hf.children p hp a ha) (f b) (hf.children p hp b hb)
    ((hsame a haold).1.trans hatype) ((hsame b hbold).1.trans hbtype)
  have heq := (Entry.wellPlaced_root _).eq_of_seq (hf.mem haold) (hf.mem hbold) hseq
  exact hne (congrArg Entry.seq (hf.bijOn.injOn haold hbold heq))

end TreeDiff
