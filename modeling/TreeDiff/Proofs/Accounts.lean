/-
# The account of a comparison

Each change of a comparison is about two joined entries that differ, about a free old entry or about
a free new entry.  The account of a comparison names, for each of its changes, what the change is
about.  From the account one reads off that no entry is reported twice and that no free entry is
forgotten: what is free is reported at the top of the unbroken chain of free entries above it.
Joined entries may lie below free ones and free ones below joined ones, in any nesting; the chain
ends at the first joined entry in any case.
-/
import TreeDiff.Proofs.Changes
import TreeDiff.Proofs.ReportOrder

namespace TreeDiff

/-! ## What changes are about -/

/-- What a change is about. -/
inductive Origin where
  /-- Two joined entries that differ, with the kind of the change. -/
  | pair (link : Link) (kind : ChangeKind)
  /-- A free old entry. -/
  | removal (old : Entry)
  /-- A free new entry. -/
  | addition (new : Entry)

namespace Origin

/-- The change that is reported. -/
def change (limit : Option Int) : Origin → Change
  | pair link kind => changed limit kind link.old link.new
  | removal old => removed limit old
  | addition new => added limit new

/-- Whether the change of one origin is reported before that of another or in the same place. -/
def notAfter (limit : Option Int) (a b : Origin) : Bool :=
  (a.change limit).notAfter (b.change limit)

/-- The entry that anchors the change. -/
def anchor : Origin → Entry
  | pair link _ => link.old
  | removal old => old
  | addition new => new

/-- The old entry that the change is about. -/
def old? : Origin → Option Entry
  | pair link _ => some link.old
  | removal old => some old
  | addition _ => none

/-- The new entry that the change is about. -/
def new? : Origin → Option Entry
  | pair link _ => some link.new
  | removal _ => none
  | addition new => some new

/-- Whether no entry occurs in both of two changes. -/
def Apart (a b : Origin) : Prop :=
  (∀ x ∈ a.old?, ∀ y ∈ b.old?, x.seq ≠ y.seq) ∧ ∀ x ∈ a.new?, ∀ y ∈ b.new?, x.seq ≠ y.seq

lemma Apart.symm {a b : Origin} (h : a.Apart b) : b.Apart a :=
  ⟨fun x hx y hy => (h.1 y hy x hx).symm, fun x hx y hy => (h.2 y hy x hx).symm⟩

/-- Every change is about some entry. -/
lemma not_apart_self (a : Origin) : ¬a.Apart a := by
  intro h
  cases a with
  | pair l kind => exact h.1 l.old rfl l.old rfl rfl
  | removal o => exact h.1 o rfl o rfl rfl
  | addition n => exact h.2 n rfl n rfl rfl

end Origin

/-- What is reported of an old entry. -/
def oldOrigin? (links : Links) (e : Entry) : Option Origin :=
  match links.ofOld? e with
  | some link => link.change?.map (.pair link)
  | none => if links.isRemoved e then some (.removal e) else none

/-- What the changes of two trees are about, in the order in which they are found. -/
def origins (links : Links) (old new : Entry) : List Origin :=
  old.descendants.filterMap (oldOrigin? links) ++
    (new.descendants.filter links.isAdded).map .addition

section

variable {threshold : Binary64} {limit : Option Int} {links : Links} {old new e : Entry}
  {a b : Origin}

/-- What is reported of an old entry is about this entry. -/
lemma old?_of_oldOrigin? (hold : old.WellPlaced) (hsound : links.Sound threshold old new)
    (he : e ∈ old.preorder) (ha : oldOrigin? links e = some a) : a.old? = some e := by
  rw [oldOrigin?] at ha
  cases hl : links.ofOld? e with
  | none =>
    simp only [hl, Option.ite_none_right_eq_some, Option.some.injEq] at ha
    obtain ⟨-, rfl⟩ := ha
    rfl
  | some l =>
    simp only [hl, Option.map_eq_some_iff] at ha
    obtain ⟨kind, -, rfl⟩ := ha
    obtain ⟨hmem, hseq⟩ := hsound.oneToOne.ofOld?_eq_some_iff.1 hl
    have heq : l.old = e := hold.eq_of_seq (hsound.placed l hmem).1 he hseq
    rw [Origin.old?, heq]

lemma anchor_of_oldOrigin? (hold : old.WellPlaced) (hsound : links.Sound threshold old new)
    (he : e ∈ old.preorder) (ha : oldOrigin? links e = some a) : a.anchor = e := by
  have hsome := old?_of_oldOrigin? hold hsound he ha
  cases a <;> simp_all [Origin.old?, Origin.anchor]

/-- **The changes are those of their origins, one for each.** -/
theorem map_change_origins (hold : old.WellPlaced) (hsound : links.Sound threshold old new) :
    (origins links old new).map (Origin.change limit) = classify limit links old new := by
  have holds : (old.descendants.filterMap (oldOrigin? links)).map (Origin.change limit) =
      old.descendants.filterMap (oldChange? limit links) := by
    rw [List.map_filterMap]
    refine List.filterMap_congr fun e he => ?_
    cases hl : links.ofOld? e with
    | none =>
      have hfree : links.freeOld e = true := by rw [Links.freeOld, hl]; rfl
      rw [oldChange?_of_free hfree, oldOrigin?, hl]
      cases links.isRemoved e <;> rfl
    | some l =>
      obtain ⟨hmem, hseq⟩ := hsound.oneToOne.ofOld?_eq_some_iff.1 hl
      have heq : l.old = e := hold.eq_of_seq (hsound.placed l hmem).1
        (Entry.mem_preorder_of_mem_descendants he) hseq
      rw [oldChange?_of_joined hl heq, oldOrigin?, hl, Link.report]
      simp only [Option.map_map]
      rfl
  have hnews : ((new.descendants.filter links.isAdded).map Origin.addition).map
      (Origin.change limit) = new.descendants.filterMap (newChange? limit links) := by
    rw [List.map_map, List.filterMap_congr fun n _ => newChange?_eq, filterMap_if]
    rfl
  rw [origins, List.map_append, holds, hnews, classify, Entry.preorder_eq, Entry.preorder_eq,
    List.tail_cons, List.tail_cons]

/-! ## Which entries are reported -/

lemma mem_origins : a ∈ origins links old new ↔
    (∃ e ∈ old.descendants, oldOrigin? links e = some a) ∨
      ∃ n ∈ new.descendants, links.isAdded n = true ∧ .addition n = a := by
  simp only [origins, List.mem_append, List.mem_filterMap, List.mem_map, List.mem_filter, and_assoc]

lemma pair_mem_origins (hold : old.WellPlaced) (hsound : links.Sound threshold old new) {l : Link}
    {kind : ChangeKind} : .pair l kind ∈ origins links old new ↔
      l ∈ links ∧ l ≠ ⟨old, new, .exact⟩ ∧ l.change? = some kind := by
  rw [mem_origins]
  constructor
  · rintro (⟨e, he, ha⟩ | ⟨n, -, -, ha⟩)
    · have hsome := old?_of_oldOrigin? hold hsound (Entry.mem_preorder_of_mem_descendants he) ha
      obtain rfl : l.old = e := Option.some.inj hsome
      rw [oldOrigin?] at ha
      cases hl : links.ofOld? l.old with
      | none => simp [hl] at ha
      | some m =>
        simp only [hl, Option.map_eq_some_iff, Origin.pair.injEq] at ha
        obtain ⟨kind', hkind, rfl, rfl⟩ := ha
        refine ⟨Links.mem_of_ofOld? hl, ?_, hkind⟩
        rintro rfl
        exact hold.seq_ne_of_mem_descendants he rfl
    · exact Origin.noConfusion ha
  · rintro ⟨hl, hne, hkind⟩
    refine Or.inl ⟨l.old, (hsound.mem_descendants hl hne).1, ?_⟩
    rw [oldOrigin?, hsound.oneToOne.ofOld?_eq_some_iff.2 ⟨hl, rfl⟩]
    simp only [hkind, Option.map_some]

/-- Whether an old entry is joined can be asked by its number. -/
lemma joinsOld_eq (links : Links) (e : Entry) : links.joinsOld e.seq = !links.freeOld e := by
  rw [Bool.eq_iff_iff, Bool.not_eq_true', ← Bool.not_eq_true, Links.freeOld_iff, Links.joinsOld]
  simp

lemma isRemoved_iff (hold : old.WellPlaced) (he : e ∈ old.descendants) :
    links.isRemoved e = true ↔ links.freeOld e = true ∧
      ∃ p ∈ old.preorder, links.freeOld p = false ∧ e ∈ p.children := by
  rw [Links.isRemoved, Bool.and_eq_true]
  refine and_congr_right fun _ => ⟨fun h => ?_, ?_⟩
  · obtain ⟨p, hp, hep⟩ := Entry.exists_parent he
    rw [hold.parent_eq p hp e hep, Option.any_some, joinsOld_eq, Bool.not_eq_true'] at h
    exact ⟨p, hp, h, hep⟩
  · rintro ⟨p, hp, hjoined, hep⟩
    rw [hold.parent_eq p hp e hep, Option.any_some, joinsOld_eq, hjoined]
    rfl

lemma isAdded_iff (hnew : new.WellPlaced) (he : e ∈ new.descendants) :
    links.isAdded e = true ↔ links.freeNew e = true ∧
      ∃ p ∈ new.preorder, links.freeNew p = false ∧ e ∈ p.children := by
  have hback : Links.MirrorOf links.swap links := fun _ => Iff.rfl
  rw [← isRemoved_swap hback, isRemoved_iff hnew he]
  simp only [Links.freeOld_swap]

lemma removal_mem_origins (hold : old.WellPlaced) (hsound : links.Sound threshold old new) :
    .removal e ∈ origins links old new ↔ links.freeOld e = true ∧
      ∃ p ∈ old.preorder, links.freeOld p = false ∧ e ∈ p.children := by
  rw [mem_origins]
  constructor
  · rintro (⟨o, ho, ha⟩ | ⟨n, -, -, ha⟩)
    · have hsome := old?_of_oldOrigin? hold hsound (Entry.mem_preorder_of_mem_descendants ho) ha
      obtain rfl : e = o := Option.some.inj hsome
      rw [oldOrigin?] at ha
      cases hl : links.ofOld? e with
      | none =>
        simp only [hl, Option.ite_none_right_eq_some] at ha
        exact (isRemoved_iff hold ho).1 ha.1
      | some l => simp [hl] at ha
    · exact Origin.noConfusion ha
  · rintro ⟨hfree, p, hp, hjoined, hep⟩
    have he : e ∈ old.descendants := Entry.child_mem_descendants hp hep
    have hnone : links.ofOld? e = none := Option.isNone_iff_eq_none.1 hfree
    have hremoved := (isRemoved_iff hold he).2 ⟨hfree, p, hp, hjoined, hep⟩
    exact Or.inl ⟨e, he, by simp [oldOrigin?, hnone, hremoved]⟩

lemma addition_mem_origins (hnew : new.WellPlaced) :
    .addition e ∈ origins links old new ↔ links.freeNew e = true ∧
      ∃ p ∈ new.preorder, links.freeNew p = false ∧ e ∈ p.children := by
  rw [mem_origins]
  constructor
  · rintro (⟨o, -, ha⟩ | ⟨n, hn, hadded, ha⟩)
    · rw [oldOrigin?] at ha
      cases hl : links.ofOld? o <;> simp [hl] at ha
    · obtain rfl := Origin.addition.inj ha
      exact (isAdded_iff hnew hn).1 hadded
  · rintro ⟨hfree, p, hp, hjoined, hep⟩
    have he : e ∈ new.descendants := Entry.child_mem_descendants hp hep
    exact Or.inr ⟨e, he, (isAdded_iff hnew he).2 ⟨hfree, p, hp, hjoined, hep⟩, rfl⟩

/-! ## No entry is reported twice -/

lemma new?_of_oldOrigin? {n : Entry} (ha : oldOrigin? links e = some a) (hn : n ∈ a.new?) :
    ∃ l ∈ links, l.old.seq = e.seq ∧ l.new = n := by
  rw [oldOrigin?] at ha
  cases hl : links.ofOld? e with
  | none =>
    simp only [hl, Option.ite_none_right_eq_some, Option.some.injEq] at ha
    obtain ⟨-, rfl⟩ := ha
    simp [Origin.new?] at hn
  | some l =>
    simp only [hl, Option.map_eq_some_iff] at ha
    obtain ⟨kind, -, rfl⟩ := ha
    have hseq : l.old.seq = e.seq := by simpa using List.find?_some hl
    exact ⟨l, Links.mem_of_ofOld? hl, hseq, Option.some.inj hn⟩

/-- The origins of the old entries and those of the additions, as they are found. -/
lemma pairwise_origins {R : Origin → Origin → Prop}
    (holds : old.descendants.Pairwise fun e f =>
      ∀ a, oldOrigin? links e = some a → ∀ b, oldOrigin? links f = some b → R a b)
    (hnews : new.descendants.Pairwise fun n m => R (.addition n) (.addition m))
    (hboth : ∀ e ∈ old.descendants, ∀ a, oldOrigin? links e = some a →
      ∀ n, links.isAdded n = true → R a (.addition n)) : (origins links old new).Pairwise R := by
  refine List.pairwise_append.2 ⟨List.pairwise_filterMap.2 holds,
    List.pairwise_map.2 (hnews.sublist List.filter_sublist), ?_⟩
  intro a ha b hb
  obtain ⟨e, he, hea⟩ := List.mem_filterMap.1 ha
  obtain ⟨n, hn, rfl⟩ := List.mem_map.1 hb
  exact hboth e he a hea n (List.mem_filter.1 hn).2

/-- **No entry is reported twice.** -/
theorem pairwise_apart_origins (hold : old.WellPlaced) (hnew : new.WellPlaced)
    (hsound : links.Sound threshold old new) :
    (origins links old new).Pairwise Origin.Apart := by
  refine pairwise_origins ?_ ?_ ?_
  · refine List.Pairwise.imp_of_mem ?_ hold.pairwise_seq_descendants
    intro e f he hf hne a ha b hb
    have hea := old?_of_oldOrigin? hold hsound (Entry.mem_preorder_of_mem_descendants he) ha
    have hfb := old?_of_oldOrigin? hold hsound (Entry.mem_preorder_of_mem_descendants hf) hb
    constructor
    · intro x hx y hy
      rw [hea] at hx
      rw [hfb] at hy
      obtain rfl := Option.some.inj hx
      obtain rfl := Option.some.inj hy
      exact hne
    · intro x hx y hy hxy
      obtain ⟨l, hl, hle, rfl⟩ := new?_of_oldOrigin? ha hx
      obtain ⟨m, hm, hmf, rfl⟩ := new?_of_oldOrigin? hb hy
      obtain rfl := hsound.oneToOne.eq_of_new hl hm hxy
      exact hne (hle.symm.trans hmf)
  · refine hnew.pairwise_seq_descendants.imp ?_
    intro n m hne
    exact ⟨by simp [Origin.old?], by simpa [Origin.new?] using hne⟩
  · intro e he a ha n hn
    refine ⟨by simp [Origin.old?], ?_⟩
    intro x hx y hy hxy
    -- the new entry of a pair is joined, that of an addition is free
    obtain ⟨l, hl, -, rfl⟩ := new?_of_oldOrigin? ha hx
    obtain rfl := Option.some.inj hy
    exact Links.freeNew_iff.1 (Bool.and_eq_true_iff.1 hn).1 l hl hxy

/-- Changes of one kind are found in the order of the entries that anchor them. -/
lemma pairwise_anchor_origins (hold : old.WellPlaced) (hsound : links.Sound threshold old new)
    (holds : old.descendants.Pairwise fun x y => x.seq < y.seq)
    (hnews : new.descendants.Pairwise fun x y => x.seq < y.seq) :
    (origins links old new).Pairwise fun a b =>
      (a.change limit).kind = (b.change limit).kind → a.anchor.seq < b.anchor.seq := by
  refine pairwise_origins ?_ ?_ ?_
  · refine List.Pairwise.imp_of_mem ?_ holds
    intro e f he hf hlt a ha b hb _
    rw [anchor_of_oldOrigin? hold hsound (Entry.mem_preorder_of_mem_descendants he) ha,
      anchor_of_oldOrigin? hold hsound (Entry.mem_preorder_of_mem_descendants hf) hb]
    exact hlt
  · refine hnews.imp ?_
    intro n m hlt _
    exact hlt
  · intro e he a ha n hn hkind
    exfalso
    rw [oldOrigin?] at ha
    cases hl : links.ofOld? e with
    | none =>
      simp only [hl, Option.ite_none_right_eq_some, Option.some.injEq] at ha
      obtain ⟨-, rfl⟩ := ha
      simp [Origin.change, removed, added] at hkind
    | some l =>
      simp only [hl, Option.map_eq_some_iff] at ha
      obtain ⟨kind, hchange, rfl⟩ := ha
      rcases Link.kind_of_change? hchange with rfl | rfl | rfl <;>
        simp [Origin.change, changed, added] at hkind

end

/-! ## Chains of free entries -/

namespace Entry

/-- Whether an entry is reached from another one by going down through free entries alone, both of
them included. -/
def ChainTo (free : Entry → Bool) (top e : Entry) : Prop :=
  e ∈ top.preorder ∧ ∀ x ∈ top.preorder, e ∈ x.preorder → free x = true

variable {free : Entry → Bool} {root top e : Entry}

lemma ChainTo.free_top (h : ChainTo free top e) : free top = true :=
  h.2 top (mem_preorder_self top) h.1

/-- Going up from a free entry one meets free entries only, or a joined one with a chain of free
entries below it. -/
lemma WellPlaced.chainTo_or (h : root.WellPlaced) (he : e ∈ root.preorder) (hfree : free e = true) :
    ChainTo free root e ∨
      ∃ p ∈ root.preorder, free p = false ∧ ∃ top ∈ p.children, ChainTo free top e := by
  induction root using induction_children with
  | step root ih =>
    rcases mem_preorder.1 he with rfl | hdown
    · refine Or.inl ⟨he, fun x hx hex => ?_⟩
      rcases mem_preorder.1 hx with rfl | hx
      · exact hfree
      -- an entry below the top does not have the top below it
      · have hbelow : e ∈ e.descendants := by
          rcases mem_preorder.1 hex with heq | hex
          · rwa [← heq] at hx
          · exact descendants_trans (mem_preorder_of_mem_descendants hx) hex
        exact absurd rfl (h.seq_ne_of_mem_descendants hbelow)
    · obtain ⟨c, hc, hec⟩ := mem_descendants.1 hdown
      have hcroot := child_mem_preorder (mem_preorder_self root) hc
      rcases ih c hc (h.of_mem_children hc) hec with hchain | ⟨p, hp, hjoined, hbelow⟩
      · cases hroot : free root with
        | false => exact Or.inr ⟨root, mem_preorder_self root, hroot, c, hc, hchain⟩
        | true =>
          refine Or.inl ⟨he, fun x hx hex => ?_⟩
          rcases mem_preorder.1 hx with rfl | hx
          · exact hroot
          · obtain ⟨d, hd, hxd⟩ := mem_descendants.1 hx
            obtain rfl := h.eq_of_mem_children hc hd hec (preorder_trans hxd hex) rfl
            exact hchain.2 x hxd hex
      · exact Or.inr ⟨p, preorder_trans hcroot hp, hjoined, hbelow⟩

/-- A chain that starts right below a joined entry does not go on above another one. -/
lemma WellPlaced.eq_of_chainTo (h : root.WellPlaced) {p q top' : Entry} (hp : p ∈ root.preorder)
    (hq : q ∈ root.preorder) (hpj : free p = false) (hqj : free q = false)
    (htop : top ∈ p.children) (htop' : top' ∈ q.children) (hchain : ChainTo free top e)
    (hchain' : ChainTo free top' e) : top = top' := by
  have key : ∀ {p q top top' : Entry}, p ∈ root.preorder → free p = false → top ∈ p.children →
      ChainTo free top e → q ∈ root.preorder → top' ∈ q.children → ChainTo free top' e →
      top ∈ top'.preorder → top = top' := by
    intro p q top top' hp hpj htop hchain hq htop' hchain' hin
    refine (mem_preorder.1 hin).resolve_right fun hbelow => ?_
    obtain ⟨r, hr, htopr⟩ := exists_parent hbelow
    have hrroot : r ∈ root.preorder := preorder_trans (child_mem_preorder hq htop') hr
    obtain rfl := h.eq_of_child hp hrroot htop htopr
    have hfree := hchain'.2 p hr
      (preorder_trans (child_mem_preorder (mem_preorder_self p) htop) hchain.1)
    rw [hpj] at hfree
    exact Bool.false_ne_true hfree
  rcases h.nested (child_mem_preorder hp htop) (child_mem_preorder hq htop') hchain.1
    hchain'.1 with hin | hin
  · exact key hp hpj htop hchain hq htop' hchain' hin
  · exact (key hq hqj htop' hchain' hp htop hchain hin).symm

/-- **Above a free entry there is exactly one chain of free entries that ends at a joined one.** -/
theorem WellPlaced.existsUnique_chainTo (h : root.WellPlaced) (hroot : free root = false)
    (he : e ∈ root.preorder) (hfree : free e = true) :
    ∃! top, (∃ p ∈ root.preorder, free p = false ∧ top ∈ p.children) ∧ ChainTo free top e := by
  rcases h.chainTo_or he hfree with hchain | ⟨p, hp, hjoined, top, htop, hchain⟩
  · exact absurd hchain.free_top (by simp [hroot])
  · refine ⟨top, ⟨⟨p, hp, hjoined, htop⟩, hchain⟩, ?_⟩
    rintro top' ⟨⟨q, hq, hqjoined, htop'⟩, hchain'⟩
    exact h.eq_of_chainTo hq hp hqjoined hjoined htop' htop hchain' hchain

end Entry

/-! ## Accounts -/

/-- What a list of changes says of two trees with links between them. -/
structure Account (limit : Option Int) (links : Links) (old new : Entry) (changes : List Change)
    (account : List Origin) : Prop where
  /-- There is one change for each origin, in the same order. -/
  changes_eq : account.map (Origin.change limit) = changes
  /-- The joined pairs below the roots that stand for a change. -/
  pair_mem_iff : ∀ l kind, .pair l kind ∈ account ↔
    l ∈ links ∧ l ≠ ⟨old, new, .exact⟩ ∧ l.change? = some kind
  /-- What joined pairs stand for. -/
  pair_kind : ∀ l kind, .pair l kind ∈ account → kind = .rename ∨ kind = .move ∨ kind = .modify
  /-- The free old entries right below joined ones. -/
  removal_mem_iff : ∀ o, .removal o ∈ account ↔ links.freeOld o = true ∧
    ∃ p ∈ old.preorder, links.freeOld p = false ∧ o ∈ p.children
  /-- The free new entries right below joined ones. -/
  addition_mem_iff : ∀ n, .addition n ∈ account ↔ links.freeNew n = true ∧
    ∃ p ∈ new.preorder, links.freeNew p = false ∧ n ∈ p.children
  /-- No entry occurs in two changes. -/
  apart : account.Pairwise Origin.Apart
  /-- A free old entry is reported once in the chain of free entries above it. -/
  removal_above : ∀ e ∈ old.preorder, links.freeOld e = true →
    ∃! top, .removal top ∈ account ∧ Entry.ChainTo links.freeOld top e
  /-- A free new entry is reported once in the chain of free entries above it. -/
  addition_above : ∀ e ∈ new.preorder, links.freeNew e = true →
    ∃! top, .addition top ∈ account ∧ Entry.ChainTo links.freeNew top e
  /-- The changes are sorted by their ranks, and those of one rank by the entries that anchor them,
  which are then entries of one tree. -/
  sorted : account.Pairwise fun a b => (a.change limit).rank < (b.change limit).rank ∨
    (a.change limit).rank = (b.change limit).rank ∧ (a.change limit).kind = (b.change limit).kind ∧
      a.anchor.seq < b.anchor.seq

section

variable {threshold : Binary64} {limit : Option Int} {links : Links} {old new : Entry}

lemma nodup_origins (hold : old.WellPlaced) (hnew : new.WellPlaced)
    (hsound : links.Sound threshold old new) : (origins links old new).Nodup := by
  refine (pairwise_apart_origins hold hnew hsound).imp ?_
  rintro a b hab rfl
  exact a.not_apart_self hab

/-- The account of a comparison, before the changes are sorted and after. -/
lemma account_of_perm (hold : old.WellPlaced) (hnew : new.WellPlaced)
    (hsound : links.Sound threshold old new) {account : List Origin}
    (hperm : account.Perm (origins links old new))
    (hsorted : account.Pairwise fun a b => (a.change limit).rank < (b.change limit).rank ∨
      (a.change limit).rank = (b.change limit).rank ∧
        (a.change limit).kind = (b.change limit).kind ∧ a.anchor.seq < b.anchor.seq) :
    Account limit links old new (account.map (Origin.change limit)) account := by
  have hroots := hsound.roots_not_free
  have hremoval : ∀ o, .removal o ∈ account ↔ links.freeOld o = true ∧
      ∃ p ∈ old.preorder, links.freeOld p = false ∧ o ∈ p.children := fun o => by
    rw [hperm.mem_iff, removal_mem_origins hold hsound]
  have haddition : ∀ n, .addition n ∈ account ↔ links.freeNew n = true ∧
      ∃ p ∈ new.preorder, links.freeNew p = false ∧ n ∈ p.children := fun n => by
    rw [hperm.mem_iff, addition_mem_origins hnew]
  have hpair : ∀ l kind, .pair l kind ∈ account ↔
      l ∈ links ∧ l ≠ ⟨old, new, .exact⟩ ∧ l.change? = some kind := fun l kind => by
    rw [hperm.mem_iff, pair_mem_origins hold hsound]
  refine ⟨rfl, hpair, ?_, hremoval, haddition, ?_, ?_, ?_, hsorted⟩
  · intro l kind hmem
    exact Link.kind_of_change? ((hpair l kind).1 hmem).2.2
  · exact (hperm.pairwise_iff Origin.Apart.symm).2 (pairwise_apart_origins hold hnew hsound)
  · intro e he hfree
    refine (existsUnique_congr fun top => ?_).2 (hold.existsUnique_chainTo hroots.1 he hfree)
    rw [hremoval]
    exact ⟨fun h => ⟨h.1.2, h.2⟩, fun h => ⟨⟨h.2.free_top, h.1⟩, h.2⟩⟩
  · intro e he hfree
    refine (existsUnique_congr fun top => ?_).2 (hnew.existsUnique_chainTo hroots.2 he hfree)
    rw [haddition]
    exact ⟨fun h => ⟨h.1.2, h.2⟩, fun h => ⟨⟨h.2.free_top, h.1⟩, h.2⟩⟩

/-- **Sorting the changes sorts their origins along with them.** -/
theorem exists_account_of_sound (limit : Option Int) (hold : old.WellPlaced)
    (hnew : new.WellPlaced) (hsound : links.Sound threshold old new)
    (holds : old.preorder.Pairwise fun x y => x.seq < y.seq)
    (hnews : new.preorder.Pairwise fun x y => x.seq < y.seq) :
    ∃ account, Account limit links old new
      ((classify limit links old new).mergeSort Change.notAfter) account := by
  have htrans : ∀ a b c : Origin, a.notAfter limit b = true → b.notAfter limit c = true →
      a.notAfter limit c = true := by
    intro a b c hab hbc
    exact Change.notAfter_iff.2 ((Change.notAfter_iff.1 hab).trans (Change.notAfter_iff.1 hbc))
  have htotal : ∀ a b : Origin, (a.notAfter limit b || b.notAfter limit a) = true := by
    intro a b
    rw [Bool.or_eq_true]
    exact (le_total (a.change limit).rank (b.change limit).rank).imp Change.notAfter_iff.2
      Change.notAfter_iff.2
  rw [Entry.preorder_eq, List.pairwise_cons] at holds hnews
  have hanchors : (origins links old new).Pairwise fun a b =>
      (a.change limit).kind = (b.change limit).kind → a.anchor.seq < b.anchor.seq :=
    pairwise_anchor_origins hold hsound holds.2 hnews.2
  have hstable := pairwise_mergeSort_stable htrans htotal (nodup_origins hold hnew hsound) hanchors
  have hmap : ((origins links old new).mergeSort (Origin.notAfter limit)).map
      (Origin.change limit) = (classify limit links old new).mergeSort Change.notAfter := by
    rw [← map_change_origins hold hsound]
    exact List.map_mergeSort fun _ _ _ _ => rfl
  refine ⟨(origins links old new).mergeSort (Origin.notAfter limit), ?_⟩
  rw [← hmap]
  refine account_of_perm hold hnew hsound (List.mergeSort_perm _ _) (hstable.imp ?_)
  rintro a b ⟨hab, hties⟩
  refine (Change.notAfter_iff.1 hab).lt_or_eq.imp id fun hrank => ?_
  have hkind := Change.kind_eq_of_rank_eq hrank
  exact ⟨hrank, hkind, hties (Change.notAfter_iff.2 hrank.ge) hkind⟩

end

/-- **The changes of a comparison have an account.**  The summary counts the changes of each
kind. -/
theorem exists_account (d : Differ) (fullText : Bool) (old new : Node) :
    ∃ result account, d.diff fullText (some old) (some new) = .ok result ∧
      Account (d.limit fullText)
        (linkTrees d.threshold (.root (.ofNode d.schema old)) (.root (.ofNode d.schema new)))
        (.root (.ofNode d.schema old)) (.root (.ofNode d.schema new)) result.changes account ∧
      ∀ kind count, (kind, count) ∈ result.summary ↔
        count = result.changes.countP fun c => c.kind = kind := by
  have hold := Entry.wellPlaced_root (.ofNode d.schema old)
  have hnew := Entry.wellPlaced_root (.ofNode d.schema new)
  obtain ⟨account, haccount⟩ := exists_account_of_sound (d.limit fullText) hold hnew
    (Links.Run.linkTrees hold hnew d.threshold).sound
    (Entry.pairwise_seq_preorder_root _) (Entry.pairwise_seq_preorder_root _)
  refine ⟨_, account, rfl, haccount, ?_⟩
  intro kind count
  simp only [Diff.summary, Diff.count, Diff.ofKind, List.mem_map, Prod.mk.injEq,
    List.countP_eq_length_filter]
  constructor
  · rintro ⟨kind, -, rfl, rfl⟩
    rfl
  · rintro rfl
    exact ⟨kind, by cases kind <;> simp [ChangeKind.all], rfl, rfl⟩

/-- A block with another block and a function in it. -/
def Node.beforeUnwrap : Node := .programOf [.blockOf [.blockOf [], .ofFunction "g" "2"]]

/-- The function alone. -/
def Node.afterUnwrap : Node := .programOf [.ofFunction "g" "2"]

/-- How the two programs are joined. -/
def Links.unwrapped : Links :=
  linkTrees (Differ.usual .functions).threshold (.root (.ofNode .functions .beforeUnwrap))
    (.root (.ofNode .functions .afterUnwrap))

/-- The inner block goes with the outer one, which is removed around a function that moves out. -/
theorem account_beforeUnwrap_afterUnwrap :
    ∃ result account,
      Differ.diff (.usual .functions) false (some .beforeUnwrap) (some .afterUnwrap) =
        .ok result ∧
      Account (Differ.limit (.usual .functions) false) .unwrapped
        (.root (.ofNode .functions .beforeUnwrap)) (.root (.ofNode .functions .afterUnwrap))
        result.changes account ∧
      (∃ l, .pair l .move ∈ account) ∧
      ∃ e ∈ (Entry.root (.ofNode .functions .beforeUnwrap)).preorder, .removal e ∉ account ∧
        ∃! top, .removal top ∈ account ∧ Entry.ChainTo Links.unwrapped.freeOld top e := by
  obtain ⟨result, account, hdiff, haccount, -⟩ :=
    exists_account (.usual .functions) false .beforeUnwrap .afterUnwrap
  have haccount : Account (Differ.limit (.usual .functions) false) .unwrapped
      (.root (.ofNode .functions .beforeUnwrap)) (.root (.ofNode .functions .afterUnwrap))
      result.changes account := haccount
  have hmove : ∃ l ∈ Links.unwrapped, l.old.seq ≠ 0 ∧ l.change? = some .move := by decide +kernel
  have hinner : ∃ e ∈ (Entry.root (.ofNode .functions .beforeUnwrap)).preorder,
      Links.unwrapped.freeOld e = true ∧
      ∀ p ∈ (Entry.root (.ofNode .functions .beforeUnwrap)).preorder,
        Links.unwrapped.freeOld p = false → ∀ c ∈ p.children, c.seq ≠ e.seq := by decide +kernel
  refine ⟨result, account, hdiff, haccount, ?_, ?_⟩
  · obtain ⟨l, hl, hbelow, hchange⟩ := hmove
    refine ⟨l, (haccount.pair_mem_iff l .move).2 ⟨hl, ?_, hchange⟩⟩
    rintro rfl
    exact hbelow rfl
  · obtain ⟨e, he, hfree, hinside⟩ := hinner
    refine ⟨e, he, fun hmem => ?_, haccount.removal_above e he hfree⟩
    obtain ⟨-, p, hp, hjoined, hep⟩ := (haccount.removal_mem_iff e).1 hmem
    exact hinside p hp hjoined e hep rfl

end TreeDiff
