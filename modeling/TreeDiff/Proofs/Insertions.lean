/-
# Putting a tree into another one

A tree gets one more subtree, anywhere and with anything in it.  As long as this does not change by
which keys the siblings of its top are told apart, the in-place stage joins every entry that was
there before with itself.  So no such entry is free when candidates for moves are collected, and
nothing in the new subtree is joined, whatever it repeats of the rest.  The comparison reports the
top of the subtree and leaves out what lies below it; the other way round it is the same.
-/
import TreeDiff.Proofs.Edits
import TreeDiff.Proofs.Mirror

namespace TreeDiff

namespace Entry

/-- The new tree comes from the old one by putting the tree of `s` below some entry.  What was there
before keeps its place, its type and its intents, and the siblings of `s` of its type keep their
keys, none of which is that of `s`. -/
structure Insertion (old new : Entry) (f : Entry → Entry) (s : Entry) : Prop where
  below_root : s ∈ new.descendants
  bijOn : Set.BijOn f {e | e ∈ old.preorder} {e | e ∈ new.preorder ∧ e ∉ s.preorder}
  roots : f old = new
  children : ∀ p ∈ old.preorder, ∀ c ∈ p.children, f c ∈ (f p).children
  order : ∀ p ∈ old.preorder, ∀ a ∈ p.children, ∀ b ∈ p.children, a.seq < b.seq →
    (f a).seq < (f b).seq
  type_eq : ∀ e ∈ old.preorder, (f e).type = e.type
  intents_eq : ∀ e ∈ old.preorder, (f e).outline.intents = e.outline.intents
  keys : ∀ p ∈ old.preorder, s ∈ (f p).children → ∀ c ∈ p.children, c.type = s.type →
    (f c).key = c.key ∧ c.key ≠ s.key

/-- That entries belong together one to one beside a subtree can be checked by their numbers. -/
lemma bijOn_beside_of_seq {old new s : Entry} {f : Entry → Entry} (hnew : new.WellPlaced)
    (hs : s ∈ new.preorder) (hmem : ∀ e ∈ old.preorder, f e ∈ new.preorder)
    (hperm : ((old.preorder.map fun e => (f e).seq) ++ s.preorder.map seq).Perm
      (new.preorder.map seq)) :
    Set.BijOn f {e | e ∈ old.preorder} {e | e ∈ new.preorder ∧ e ∉ s.preorder} := by
  obtain ⟨hnodup, -, happart⟩ := List.nodup_append.1 (hperm.nodup_iff.2 hnew.distinct)
  refine ⟨fun e he => ⟨hmem e he, fun hin => ?_⟩, ?_, ?_⟩
  · exact happart _ (List.mem_map_of_mem he) _ (List.mem_map_of_mem hin) rfl
  · intro a ha b hb hab
    exact List.inj_on_of_nodup_map hnodup ha hb (congrArg seq hab)
  · rintro d ⟨hd, hds⟩
    rcases List.mem_append.1 (hperm.symm.subset (List.mem_map_of_mem hd)) with hin | hin
    · obtain ⟨e, he, hseq⟩ := List.mem_map.1 hin
      exact ⟨e, he, hnew.eq_of_seq (hmem e he) hd hseq⟩
    · obtain ⟨x, hx, hseq⟩ := List.mem_map.1 hin
      exact absurd (hnew.eq_of_seq (preorder_trans hs hx) hd hseq ▸ hx) hds

end Entry

section

variable {threshold : Binary64} {old new : Outline} {p e s : Entry} {f : Entry → Entry} {l : Link}

namespace Entry.Insertion

lemma mem_new (h : Insertion (root old) (root new) f s) : s ∈ (root new).preorder :=
  mem_preorder_of_mem_descendants h.below_root

lemma mapsTo (h : Insertion (root old) (root new) f s) :
    Set.MapsTo f {e | e ∈ (root old).preorder} {e | e ∈ (root new).preorder} :=
  fun _ he => (h.bijOn.mapsTo he).1

/-- Below the counterpart of an entry only the top of the new subtree is new. -/
lemma eq_of_mem_children (h : Insertion (root old) (root new) f s) (hp : p ∈ (root old).preorder)
    (he : e ∈ (f p).children) (hes : e ∈ s.preorder) : e = s :=
  (wellPlaced_root new).eq_of_child_mem_preorder h.mem_new (h.mapsTo hp) he (h.bijOn.mapsTo hp).2
    hes

/-- The top of the new subtree came, and nothing went. -/
lemma staysInPlace (h : Insertion (root old) (root new) f s) :
    StaysInPlace (root old) (root new) f (fun _ => false) fun e => e.seq == s.seq where
  mem _ he := h.mapsTo he
  type_eq := h.type_eq
  mem_children_iff p hp d := by
    constructor
    · rintro ⟨hd, hfresh⟩
      have hds : d ∉ s.preorder := by
        intro hds
        rw [h.eq_of_mem_children hp hd hds, beq_self_eq_true] at hfresh
        exact Bool.noConfusion hfresh
      obtain ⟨c, hc, rfl⟩ := h.bijOn.surjOn ⟨child_mem_preorder (h.mapsTo hp) hd, hds⟩
      exact ⟨c, mem_children_of_stays h.mapsTo h.bijOn.injOn (wellPlaced_root new) h.roots hp hc
        (fun q hq => h.children q hq c) hd, rfl, rfl⟩
    · rintro ⟨c, hc, -, rfl⟩
      refine ⟨h.children p hp c hc, beq_eq_false_iff_ne.2 fun hseq => ?_⟩
      have hcnew := h.bijOn.mapsTo (child_mem_preorder hp hc)
      have heq := (wellPlaced_root new).eq_of_seq hcnew.1 h.mem_new hseq
      exact hcnew.2 (heq ▸ mem_preorder_self s)
  order p hp a ha b hb _ _ := h.order p hp a ha b hb

lemma keepsKeys (h : Insertion (root old) (root new) f s) :
    KeepsKeys (root old) (root new) f (fun _ => false) fun e => e.seq == s.seq := by
  have hfresh : ∀ {p d}, p ∈ (root old).preorder → d ∈ (f p).children →
      (d.seq == s.seq) = true → d = s := fun hp hd hseq =>
    (wellPlaced_root new).eq_of_seq (child_mem_preorder (h.mapsTo hp) hd) h.mem_new
      (beq_iff_eq.1 hseq)
  refine ⟨h.staysInPlace, ?_, ?_, ?_⟩
  · intro p hp c hc _
    have hintents := h.intents_eq c (child_mem_preorder hp hc)
    refine h.staysInPlace.key_eq hp hc (identifier_eq_of_intents_eq hintents) ?_
    rintro (⟨d, -, -, hloose⟩ | ⟨d, hd, htype, hseq⟩)
    · exact Bool.noConfusion hloose
    · obtain rfl := hfresh hp hd hseq
      exact (h.keys p hp hd c hc htype.symm).1
  · intro p hp o ho hloose
    exact Bool.noConfusion hloose
  · intro p hp n hn hseq o ho htype
    obtain rfl := hfresh hp hn hseq
    exact (h.keys p hp hn o ho htype).2

/-! ## The links -/

lemma mem_linkInPlace (h : Insertion (root old) (root new) f s) :
    l ∈ linkInPlace threshold (root old) (root new) ↔
      l.kind = .exact ∧ l.old ∈ (root old).preorder ∧ l.new = f l.old := by
  have hold := wellPlaced_root old
  have hnew := wellPlaced_root new
  refine mem_linkInPlace_of_all_stages (fun _ => .exact) hold hnew h.roots rfl fun p hp l => ?_
  rw [h.keepsKeys.mem_linkChildren hp
    (fun c hc => freeOld_of_mem_descendants hold (child_mem_descendants hp hc))
    (fun c hc => freeNew_of_mem_descendants hnew (child_mem_descendants (h.mapsTo hp) hc))
    (Or.inl fun _ _ => rfl)]
  simp

lemma freeOld_eq_false (h : Insertion (root old) (root new) f s)
    (he : e ∈ (root old).preorder) :
    (linkInPlace threshold (root old) (root new)).freeOld e = false :=
  Links.freeOld_of_mem (h.mem_linkInPlace.2 ⟨rfl, he, rfl⟩ :
    (⟨e, f e, .exact⟩ : Link) ∈ linkInPlace threshold (root old) (root new))

/-- **Every entry that was there before is joined with its counterpart, and nothing else is.** -/
theorem linkTrees_eq (h : Insertion (root old) (root new) f s) :
    linkTrees threshold (root old) (root new) = linkInPlace threshold (root old) (root new) :=
  linkTrees_eq_linkInPlace (Or.inl fun _ he => h.freeOld_eq_false he)

/-- The other way round the same entries are joined. -/
theorem mirrorOf_linkTrees (h : Insertion (root old) (root new) f s) (threshold : Binary64) :
    (linkTrees threshold (root new) (root old)).MirrorOf
      (linkTrees threshold (root old) (root new)) := by
  have hswap := linkInPlace_swap threshold (wellPlaced_root old) (wellPlaced_root new)
  have hback : ∀ e ∈ (root old).preorder,
      (linkInPlace threshold (root new) (root old)).freeNew e = false := fun e he => by
    rw [hswap.freeNew_eq, h.freeOld_eq_false he]
  rw [h.linkTrees_eq, linkTrees_eq_linkInPlace (Or.inr hback)]
  exact hswap

/-! ## What is reported -/

lemma change?_eq_none (h : Insertion (root old) (root new) f s)
    (hl : l ∈ linkTrees threshold (root old) (root new)) : l.change? = none := by
  rw [h.linkTrees_eq, h.mem_linkInPlace] at hl
  obtain ⟨hkind, hold, hnew⟩ := hl
  exact Link.change?_eq_none hkind (hnew ▸ (h.intents_eq _ hold).symm)

lemma freeNew_iff (h : Insertion (root old) (root new) f s) (he : e ∈ (root new).preorder) :
    (linkTrees threshold (root old) (root new)).freeNew e = true ↔ e ∈ s.preorder := by
  rw [h.linkTrees_eq]
  constructor
  · intro hfree
    by_contra hes
    obtain ⟨o, ho, rfl⟩ := h.bijOn.surjOn ⟨he, hes⟩
    have hlink : (⟨o, f o, .exact⟩ : Link) ∈ linkInPlace threshold (root old) (root new) :=
      h.mem_linkInPlace.2 ⟨rfl, ho, rfl⟩
    exact Links.freeNew_iff.1 hfree _ hlink rfl
  · intro hes
    refine Links.freeNew_iff.2 fun l hl hseq => ?_
    obtain ⟨-, hold, hnew⟩ := h.mem_linkInPlace.1 hl
    have hlnew := h.bijOn.mapsTo hold
    rw [← hnew] at hlnew
    exact hlnew.2 ((wellPlaced_root new).eq_of_seq hlnew.1 he hseq ▸ hes)

/-- The top of the new subtree is the only free entry right below a joined one. -/
lemma top_iff (h : Insertion (root old) (root new) f s) :
    (linkTrees threshold (root old) (root new)).freeNew e = true ∧
      (∃ p ∈ (root new).preorder, (linkTrees threshold (root old) (root new)).freeNew p = false ∧
        e ∈ p.children) ↔ e = s := by
  have hnew := wellPlaced_root new
  have hjoined : ∀ {p}, p ∈ (root new).preorder →
      ((linkTrees threshold (root old) (root new)).freeNew p = false ↔ p ∉ s.preorder) :=
    fun hp => by rw [← Bool.not_eq_true, h.freeNew_iff hp]
  constructor
  · rintro ⟨hfree, p, hp, hpj, hep⟩
    rw [hjoined hp] at hpj
    rw [h.freeNew_iff (child_mem_preorder hp hep)] at hfree
    exact hnew.eq_of_child_mem_preorder h.mem_new hp hep hpj hfree
  · rintro rfl
    obtain ⟨p, hp, hep⟩ := exists_parent h.below_root
    refine ⟨(h.freeNew_iff h.mem_new).2 (mem_preorder_self e), p, hp, (hjoined hp).2 ?_, hep⟩
    exact fun hpe => (hnew.of_mem h.mem_new).seq_ne_of_mem_descendants
      (child_mem_descendants hpe hep) rfl

/-- What a comparison with the larger tree is about. -/
lemma mem_origins_iff (h : Insertion (root old) (root new) f s) (b : Origin) :
    b ∈ origins (linkTrees threshold (root old) (root new)) (root old) (root new) ↔
      b = .addition s := by
  have hold := wellPlaced_root old
  have hnew := wellPlaced_root new
  have hsound := (Links.Run.linkTrees hold hnew threshold).sound
  cases b with
  | pair l kind =>
    rw [pair_mem_origins hold hsound]
    refine iff_of_false ?_ Origin.noConfusion
    rintro ⟨hl, -, hchange⟩
    exact absurd ((h.change?_eq_none hl).symm.trans hchange) (Option.some_ne_none kind).symm
  | removal e =>
    rw [removal_mem_origins hold hsound]
    refine iff_of_false ?_ Origin.noConfusion
    rintro ⟨hfree, p, hp, -, he⟩
    rw [h.linkTrees_eq, h.freeOld_eq_false (child_mem_preorder hp he)] at hfree
    exact Bool.noConfusion hfree
  | addition e =>
    rw [addition_mem_origins hnew, Origin.addition.injEq]
    exact h.top_iff

/-- What a comparison of the larger tree with the smaller one is about. -/
lemma mem_origins_back_iff (h : Insertion (root old) (root new) f s) (b : Origin) :
    b ∈ origins (linkTrees threshold (root new) (root old)) (root new) (root old) ↔
      b = .removal s := by
  have hold := wellPlaced_root old
  have hnew := wellPlaced_root new
  have hsound := (Links.Run.linkTrees hnew hold threshold).sound
  have hmirror := h.mirrorOf_linkTrees threshold
  cases b with
  | pair l kind =>
    rw [pair_mem_origins hnew hsound]
    refine iff_of_false ?_ Origin.noConfusion
    rintro ⟨hl, -, hchange⟩
    rw [hmirror, Links.mem_swap] at hl
    rw [← Link.change?_swap] at hchange
    exact absurd ((h.change?_eq_none hl).symm.trans hchange) (Option.some_ne_none kind).symm
  | removal e =>
    rw [removal_mem_origins hnew hsound, Origin.removal.injEq]
    simp only [hmirror.freeOld_eq]
    exact h.top_iff
  | addition e =>
    rw [addition_mem_origins hold]
    refine iff_of_false ?_ Origin.noConfusion
    rintro ⟨hfree, p, hp, -, he⟩
    rw [hmirror.freeNew_eq, h.linkTrees_eq, h.freeOld_eq_false (child_mem_preorder hp he)] at hfree
    exact Bool.noConfusion hfree

end Entry.Insertion

end

/-- **A tree that is put in is one addition, and one removal the other way round.**  This does not
depend on what the tree holds: it may repeat the names and the texts of others. -/
theorem diff_of_insertion (d : Differ) (fullText : Bool) (old new : Node) {f : Entry → Entry}
    {s : Entry}
    (h : Entry.Insertion (.root (.ofNode d.schema old)) (.root (.ofNode d.schema new)) f s) :
    (∃ result, d.diff fullText (some old) (some new) = .ok result ∧
      result.changes = [added (d.limit fullText) s]) ∧
    ∃ result, d.diff fullText (some new) (some old) = .ok result ∧
      result.changes = [removed (d.limit fullText) s] :=
  ⟨⟨_, rfl, Differ.changes_eq_singleton h.mem_origins_iff⟩,
    ⟨_, rfl, Differ.changes_eq_singleton h.mem_origins_back_iff⟩⟩

/-- The two functions after a block that holds the first of them once more. -/
def Node.afterInsertion : Node :=
  .programOf [.blockOf [.ofFunction "f" "1"], .ofFunction "f" "1", .ofFunction "g" "2"]

/-- The counterparts of the functions and of what lies below them. -/
def Entry.insertedBeside : Entry → Entry :=
  (Entry.root (.ofNode .functions .afterInsertion)).renumbered [0, 5, 6, 7, 8, 9, 10]

/-- The function in the block has the name and the text of one that was there before. -/
theorem added_twoFunctions_afterInsertion :
    ∃ s, Entry.Insertion (.root (.ofNode .functions .twoFunctions))
        (.root (.ofNode .functions .afterInsertion)) Entry.insertedBeside s ∧
      (∃ e ∈ s.descendants, ∃ o ∈ (Entry.root (.ofNode .functions .twoFunctions)).descendants,
        e.isIdentified = true ∧ e.outline.intents = o.outline.intents) ∧
      (∃ result, Differ.diff (.usual .functions) false (some .twoFunctions) (some .afterInsertion) =
          .ok result ∧ result.changes.map (fun c => (c.kind, c.nodeType)) = [(.add, "block")]) ∧
      ∃ result, Differ.diff (.usual .functions) false (some .afterInsertion) (some .twoFunctions) =
          .ok result ∧ result.changes.map (fun c => (c.kind, c.nodeType)) = [(.remove, "block")] := by
  have hnew := Entry.wellPlaced_root (.ofNode .functions .afterInsertion)
  have hblock : ∃ s ∈ (Entry.root (.ofNode .functions .afterInsertion)).descendants,
      s.type = "block" ∧
      (∃ e ∈ s.descendants, ∃ o ∈ (Entry.root (.ofNode .functions .twoFunctions)).descendants,
        e.isIdentified = true ∧ e.outline.intents = o.outline.intents) ∧
      (((Entry.root (.ofNode .functions .twoFunctions)).preorder.map fun e =>
        e.insertedBeside.seq) ++ s.preorder.map Entry.seq).Perm
          ((Entry.root (.ofNode .functions .afterInsertion)).preorder.map Entry.seq) ∧
      ∀ p ∈ (Entry.root (.ofNode .functions .twoFunctions)).preorder,
        s.parent = some p.insertedBeside.seq → ∀ c ∈ p.children, c.type ≠ s.type := by
    decide +kernel
  obtain ⟨s, hs, htype, hrepeats, hperm, hkeys⟩ := hblock
  have hmem : ∀ e : Entry, e.insertedBeside ∈
      (Entry.root (.ofNode .functions .afterInsertion)).preorder :=
    fun _ => Entry.renumbered_mem _ _ _
  have h : Entry.Insertion (.root (.ofNode .functions .twoFunctions))
      (.root (.ofNode .functions .afterInsertion)) Entry.insertedBeside s := by
    refine ⟨hs, Entry.bijOn_beside_of_seq hnew (Entry.mem_preorder_of_mem_descendants hs)
      (fun e _ => hmem e) hperm, hnew.eq_of_seq (hmem _) (Entry.mem_preorder_self _) ?_,
      fun p hp c hc => Entry.mem_children_of_parent hnew rfl (hmem p) (hmem c) ?_, ?_, ?_, ?_,
      fun p hp hsp c hc hct => absurd hct (hkeys p hp (hnew.parent_eq _ (hmem p) s hsp) c hc)⟩
    case refine_2 =>
      revert p hp c hc
      decide +kernel
    all_goals decide +kernel
  obtain ⟨⟨result, hresult, hchanges⟩, back, hback, hremoved⟩ :=
    diff_of_insertion (.usual .functions) false .twoFunctions .afterInsertion h
  refine ⟨s, h, hrepeats, ⟨result, hresult, ?_⟩, back, hback, ?_⟩
  · rw [hchanges, List.map_singleton, added, htype]
  · rw [hremoved, List.map_singleton, removed, htype]

end TreeDiff
