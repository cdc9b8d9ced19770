/-
# What an edit leaves in place

An edit of a tree takes some entries away from below their parents and puts others there.  What
stays below its parent stays in its order among its siblings.  If it also keeps its key, and those
that went or came have keys of their own, then the in-place stage joins exactly what stays.  Where
an edit is reported by one change only, this can be read off the links.
-/
import TreeDiff.Proofs.Accounts
import TreeDiff.Proofs.KeptSiblings
import TreeDiff.Proofs.Rearrangements

namespace TreeDiff

section

variable {threshold : Binary64} {links : Links} {old new : Outline} {p c : Entry}
  {f : Entry → Entry} {loose fresh : Entry → Bool} {l : Link}

namespace Entry

/-- The identifier is one of the intents. -/
lemma identifier_eq_of_intents_eq {a b : Entry} (h : a.outline.intents = b.outline.intents) :
    a.identifier = b.identifier := by
  rw [identifier, identifier, Outline.identifier, Outline.identifier, h]

/-! ## Places -/

/-- The new tree comes from the old one by an edit that takes the loose entries away from below
their parents and puts the fresh ones there.  Every other entry stays below the counterpart of its
parent and keeps its order among its siblings.  Every entry keeps its type. -/
structure StaysInPlace (old new : Entry) (f : Entry → Entry) (loose fresh : Entry → Bool) :
    Prop where
  mem : ∀ e ∈ old.preorder, f e ∈ new.preorder
  type_eq : ∀ e ∈ old.preorder, (f e).type = e.type
  mem_children_iff : ∀ p ∈ old.preorder, ∀ d,
    d ∈ (f p).children ∧ fresh d = false ↔ ∃ c ∈ p.children, loose c = false ∧ f c = d
  order : ∀ p ∈ old.preorder, ∀ a ∈ p.children, ∀ b ∈ p.children, loose a = false →
    loose b = false → a.seq < b.seq → (f a).seq < (f b).seq

namespace StaysInPlace

/-- The siblings of one type that stay, in both trees. -/
lemma filter_ofType (h : StaysInPlace (root old) (root new) f loose fresh)
    (hp : p ∈ (root old).preorder) (type : String) :
    (ofType type (f p).children).filter (fun n => !fresh n) =
      ((ofType type p.children).filter fun c => !loose c).map f := by
  have hsub : ((ofType type p.children).filter fun c => !loose c).Sublist p.children :=
    List.filter_sublist.trans List.filter_sublist
  have hsub' : ((ofType type (f p).children).filter fun n => !fresh n).Sublist (f p).children :=
    List.filter_sublist.trans List.filter_sublist
  have hmem : ∀ c, c ∈ (ofType type p.children).filter (fun c => !loose c) ↔
      c ∈ p.children ∧ c.type = type ∧ loose c = false := fun c => by
    rw [List.mem_filter, mem_ofType, Bool.not_eq_true', and_assoc]
  refine eq_of_mem_iff ((pairwise_seq_children (h.mem p hp)).sublist hsub') ?_ fun d => ?_
  · rw [List.pairwise_map]
    refine ((pairwise_seq_children hp).sublist hsub).imp_of_mem fun {a b} ha hb hlt => ?_
    obtain ⟨ha, -, haloose⟩ := (hmem a).1 ha
    obtain ⟨hb, -, hbloose⟩ := (hmem b).1 hb
    exact h.order p hp a ha b hb haloose hbloose hlt
  · rw [List.mem_filter, mem_ofType, Bool.not_eq_true', and_right_comm, h.mem_children_iff p hp,
      List.mem_map]
    constructor
    · rintro ⟨⟨c, hc, hloose, rfl⟩, htype⟩
      rw [h.type_eq c (child_mem_preorder hp hc)] at htype
      exact ⟨c, (hmem c).2 ⟨hc, htype, hloose⟩, rfl⟩
    · rintro ⟨c, hc, rfl⟩
      obtain ⟨hc, htype, hloose⟩ := (hmem c).1 hc
      exact ⟨⟨c, hc, hloose, rfl⟩, (h.type_eq c (child_mem_preorder hp hc)).trans htype⟩

/-- What keeps its identifier keeps its key, unless some sibling of its type went or came: then this
has to be said of it. -/
lemma key_eq (h : StaysInPlace (root old) (root new) f loose fresh)
    (hp : p ∈ (root old).preorder) (hc : c ∈ p.children)
    (hidentifier : (f c).identifier = c.identifier)
    (hdisturbed : (∃ d ∈ p.children, d.type = c.type ∧ loose d = true) ∨
      (∃ d ∈ (f p).children, d.type = c.type ∧ fresh d = true) → (f c).key = c.key) :
    (f c).key = c.key := by
  by_cases hany : (∃ d ∈ p.children, d.type = c.type ∧ loose d = true) ∨
      ∃ d ∈ (f p).children, d.type = c.type ∧ fresh d = true
  · exact hdisturbed hany
  obtain ⟨holds, hnews⟩ := not_or.1 hany
  have hallOld : ∀ d ∈ ofType c.type p.children, (!loose d) = true := by
    intro d hd
    obtain ⟨hd, htype⟩ := mem_ofType.1 hd
    rw [Bool.not_eq_true', Bool.eq_false_iff]
    exact fun hloose => holds ⟨d, hd, htype, hloose⟩
  have hallNew : ∀ d ∈ ofType c.type (f p).children, (!fresh d) = true := by
    intro d hd
    obtain ⟨hd, htype⟩ := mem_ofType.1 hd
    rw [Bool.not_eq_true', Bool.eq_false_iff]
    exact fun hfresh => hnews ⟨d, hd, htype, hfresh⟩
  have hrow := h.filter_ofType hp c.type
  rw [List.filter_eq_self.2 hallOld, List.filter_eq_self.2 hallNew] at hrow
  exact key_eq_iff.2 ⟨hidentifier, fun _ =>
    ordinal_eq_of_row hp (h.mem p hp) hrow (mem_ofType.2 ⟨hc, rfl⟩)⟩

end StaysInPlace

/-! ## Keys -/

/-- An edit after which what stays in place also keeps its key, while what went has no key that is
still there, and what came no key that was there before. -/
structure KeepsKeys (old new : Entry) (f : Entry → Entry) (loose fresh : Entry → Bool) : Prop
    extends StaysInPlace old new f loose fresh where
  key_eq : ∀ p ∈ old.preorder, ∀ c ∈ p.children, loose c = false → (f c).key = c.key
  old_key_ne : ∀ p ∈ old.preorder, ∀ o ∈ p.children, loose o = true →
    ∀ n ∈ (f p).children, n.type = o.type → o.key ≠ n.key
  new_key_ne : ∀ p ∈ old.preorder, ∀ n ∈ (f p).children, fresh n = true →
    ∀ o ∈ p.children, o.type = n.type → o.key ≠ n.key

namespace KeepsKeys

lemma keptRow (h : KeepsKeys (root old) (root new) f loose fresh) (hp : p ∈ (root old).preorder)
    (type : String) : KeptRow (ofType type p.children) (ofType type (f p).children)
      (fun c => !loose c) (fun n => !fresh n) f := by
  refine ⟨h.filter_ofType hp type, ?_, ?_, ?_⟩
  · intro e he hkeep
    exact h.key_eq p hp e (mem_ofType.1 he).1 (by simpa using hkeep)
  · intro o ho hkeep n hn
    rw [mem_ofType] at ho hn
    exact h.old_key_ne p hp o ho.1 (by simpa using hkeep) n hn.1 (hn.2.trans ho.2.symm)
  · intro n hn hkeep o ho
    rw [mem_ofType] at ho hn
    exact h.new_key_ne p hp n hn.1 (by simpa using hkeep) o ho.1 (ho.2.trans hn.2.symm)

/-- **What stays is joined:** below an entry from which nothing went, or to which nothing came, the
in-place stage joins the children that stay with their counterparts, and no others. -/
theorem mem_linkChildren (h : KeepsKeys (root old) (root new) f loose fresh)
    (hp : p ∈ (root old).preorder) (hold : ∀ c ∈ p.children, links.freeOld c = true)
    (hnew : ∀ n ∈ (f p).children, links.freeNew n = true)
    (hone : (∀ c ∈ p.children, loose c = false) ∨ ∀ n ∈ (f p).children, fresh n = false) :
    l ∈ linkChildren threshold links p (f p) ↔
      l.kind = .exact ∧ l.old ∈ p.children ∧ loose l.old = false ∧ l.new = f l.old := by
  have hkept : (∀ c ∈ p.children, (!loose c) = true) ∨ ∀ n ∈ (f p).children, (!fresh n) = true := by
    simpa using hone
  rw [mem_linkChildren_of_keptRows ((wellPlaced_root old).of_mem hp)
    ((wellPlaced_root new).of_mem (h.mem p hp)) hold hnew (h.keptRow hp) hkept, Bool.not_eq_true']

end KeepsKeys

end Entry

end

/-! ## Comparisons with one change -/

section

variable {d : Differ} {fullText : Bool} {old new : Outline} {a : Origin} {l : Link}

/-- A comparison that has one thing to report reports it once. -/
lemma Differ.changes_eq_singleton
    (honly : ∀ b, b ∈ origins (linkTrees d.threshold (.root old) (.root new)) (.root old)
      (.root new) ↔ b = a) :
    (d.diffOutlines fullText old new).changes = [a.change (d.limit fullText)] := by
  have hold := Entry.wellPlaced_root old
  have hnew := Entry.wellPlaced_root new
  have hsound := (Links.Run.linkTrees hold hnew d.threshold).sound
  have horigins : origins (linkTrees d.threshold (.root old) (.root new)) (.root old) (.root new) =
      [a] := by
    have hperm := (List.perm_ext_iff_of_nodup (nodup_origins hold hnew hsound)
      (List.nodup_singleton a)).2 fun b => (honly b).trans List.mem_singleton.symm
    exact hperm.eq_singleton
  rw [diffOutlines]
  simp only
  rw [← map_change_origins hold hsound, horigins, List.map_singleton, List.mergeSort_singleton]

/-- Entries that were joined by their keys and have the same intents are not reported. -/
lemma Link.change?_eq_none (hkind : l.kind = .exact)
    (hintents : l.old.outline.intents = l.new.outline.intents) : l.change? = none := by
  simp [change?, hkind, hintents]

/-- **One pair that differs is one change.**  If every entry is joined with its counterpart, and all
of them but one by their keys and with the same intents, then this one is what is reported. -/
theorem Differ.changes_eq_changed {f : Entry → Entry} {n : Entry} {kind : LinkKind}
    {change : ChangeKind}
    (hlinks : ∀ l, l ∈ linkTrees d.threshold (.root old) (.root new) ↔
      l.kind = (if l.old.seq = n.seq then kind else .exact) ∧ l.old ∈ (Entry.root old).preorder ∧
        l.new = f l.old)
    (hnew : ∀ e ∈ (Entry.root new).preorder, ∃ o ∈ (Entry.root old).preorder, f o = e)
    (hn : n ∈ (Entry.root old).descendants)
    (hintents : ∀ e ∈ (Entry.root old).preorder, e ≠ n →
      (f e).outline.intents = e.outline.intents)
    (hchange : Link.change? ⟨n, f n, kind⟩ = some change) :
    (d.diffOutlines fullText old new).changes = [changed (d.limit fullText) change n (f n)] := by
  have hold := Entry.wellPlaced_root old
  have hnewp := Entry.wellPlaced_root new
  have hsound := (Links.Run.linkTrees hold hnewp d.threshold).sound
  have hjoined : ∀ e ∈ (Entry.root old).preorder,
      (⟨e, f e, if e.seq = n.seq then kind else .exact⟩ : Link) ∈
        linkTrees d.threshold (.root old) (.root new) :=
    fun e he => (hlinks _).2 ⟨rfl, he, rfl⟩
  have hn' := Entry.mem_preorder_of_mem_descendants hn
  have hpair : (⟨n, f n, kind⟩ : Link) ∈ linkTrees d.threshold (.root old) (.root new) := by
    have hmem := hjoined n hn'
    rwa [if_pos rfl] at hmem
  refine changes_eq_singleton (a := .pair ⟨n, f n, kind⟩ change) fun b => ?_
  cases b with
  | pair l k =>
    rw [pair_mem_origins hold hsound, Origin.pair.injEq]
    constructor
    · rintro ⟨hl, -, hk⟩
      by_cases hln : l.old.seq = n.seq
      · obtain rfl := hsound.oneToOne.eq_of_old hl hpair hln
        exact ⟨rfl, Option.some.inj (hk.symm.trans hchange)⟩
      -- any other pair has nothing to report
      · obtain ⟨hkind, hlo, hlnew⟩ := (hlinks l).1 hl
        rw [if_neg hln] at hkind
        have hne : l.old ≠ n := fun heq => hln (congrArg Entry.seq heq)
        rw [Link.change?_eq_none hkind (hlnew ▸ (hintents _ hlo hne).symm)] at hk
        exact absurd hk.symm (Option.some_ne_none k)
    · rintro ⟨rfl, rfl⟩
      refine ⟨hpair, fun heq => ?_, hchange⟩
      exact hold.seq_ne_of_mem_descendants hn (congrArg (fun l => l.old.seq) heq)
  | removal e =>
    rw [removal_mem_origins hold hsound]
    refine iff_of_false ?_ Origin.noConfusion
    rintro ⟨hfree, p, hp, -, he⟩
    exact Links.freeOld_iff.1 hfree _ (hjoined e (Entry.child_mem_preorder hp he)) rfl
  | addition e =>
    rw [addition_mem_origins hnewp]
    refine iff_of_false ?_ Origin.noConfusion
    rintro ⟨hfree, p, hp, -, he⟩
    obtain ⟨o, ho, rfl⟩ := hnew e (Entry.child_mem_preorder hp he)
    exact Links.freeNew_iff.1 hfree _ (hjoined o ho) rfl

end

end TreeDiff
