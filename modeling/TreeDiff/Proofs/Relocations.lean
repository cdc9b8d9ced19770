/-
# Taking a subtree to another place

A subtree is cut from below its parent and put below another node.  The in-place stage joins what
lies outside it with itself and stops at its top, which has no counterpart below the counterpart of
its parent.  So the subtree is free in both trees and nothing else is.  Its top has the only name of
its kind, so of all candidates for a move the pair of the top with itself comes first: the others
lie deeper, or they lie as deep and have two names.  The descent below this pair takes the whole
subtree along.
-/
import TreeDiff.Proofs.Edits

namespace TreeDiff

namespace Entry

/-- The new tree comes from the old one by taking the tree of `s` from below its parent to another
place, where its breadcrumb is another one.  Everything else keeps its place, and all types and
intents stay.  The name of `s` is the only one of its kind, and its siblings of its type, the former
ones and the new ones, keep their keys. -/
structure Relocation (old new : Entry) (f : Entry → Entry) (s : Entry) : Prop where
  below_root : s ∈ old.descendants
  bijOn : Set.BijOn f {e | e ∈ old.preorder} {e | e ∈ new.preorder}
  roots : f old = new
  children : ∀ p ∈ old.preorder, ∀ c ∈ p.children, c ≠ s → f c ∈ (f p).children
  taken : ∀ p ∈ old.preorder, s ∈ p.children → f s ∉ (f p).children
  order : ∀ p ∈ old.preorder, ∀ a ∈ p.children, ∀ b ∈ p.children, a ≠ s → b ≠ s → a.seq < b.seq →
    (f a).seq < (f b).seq
  type_eq : ∀ e ∈ old.preorder, (f e).type = e.type
  intents_eq : ∀ e ∈ old.preorder, (f e).outline.intents = e.outline.intents
  identified : s.isIdentified = true
  once : ∀ e ∈ old.preorder, e.type = s.type → e.identifier = s.identifier → e = s
  key_eq : ∀ p ∈ old.preorder, s ∈ p.children ∨ f s ∈ (f p).children → ∀ c ∈ p.children, c ≠ s →
    c.type = s.type → (f c).key = c.key
  path_ne : s.path ≠ (f s).path

end Entry

section

variable {threshold : Binary64} {old new : Outline} {p c e s : Entry} {f : Entry → Entry} {l : Link}

namespace Entry.Relocation

/-! ## What stays in place -/

section

variable (h : Relocation (root old) (root new) f s)

include h

lemma mem_old : s ∈ (root old).preorder := mem_preorder_of_mem_descendants h.below_root

lemma mem (he : e ∈ (root old).preorder) : f e ∈ (root new).preorder := h.bijOn.mapsTo he

lemma identifier_eq (he : e ∈ (root old).preorder) : (f e).identifier = e.identifier :=
  identifier_eq_of_intents_eq (h.intents_eq e he)

lemma eq_of_seq (he : e ∈ (root old).preorder) (hseq : e.seq = s.seq) : e = s :=
  (wellPlaced_root old).eq_of_seq he h.mem_old hseq

lemma seq_eq_iff (hc : c ∈ (root old).preorder) : (f c).seq = (f s).seq ↔ c.seq = s.seq :=
  seq_eq_iff_of_injOn h.bijOn.mapsTo h.bijOn.injOn (wellPlaced_root old) (wellPlaced_root new) hc
    h.mem_old

lemma ne_of_mem_descendants (he : e ∈ s.descendants) : e ≠ s := fun heq =>
  ((wellPlaced_root old).of_mem h.mem_old).seq_ne_of_mem_descendants he (congrArg Entry.seq heq)

lemma root_not_mem : root old ∉ s.preorder := by
  intro hroot
  have hbelow : root old ∈ (root old).descendants := by
    rcases mem_preorder.1 hroot with heq | hroot
    · exact heq ▸ h.below_root
    · exact descendants_trans h.mem_old hroot
  exact (wellPlaced_root old).seq_ne_of_mem_descendants hbelow rfl

/-- Of the children of an entry outside the subtree only its top lies in it. -/
lemma child_mem_iff (hp : p ∈ (root old).preorder) (hps : p ∉ s.preorder) (hc : c ∈ p.children) :
    c ∈ s.preorder ↔ c.seq = s.seq := by
  constructor
  · intro hcs
    rw [(wellPlaced_root old).eq_of_child_mem_preorder h.mem_old hp hc hps hcs]
  · intro hseq
    rw [h.eq_of_seq (child_mem_preorder hp hc) hseq]
    exact mem_preorder_self s

/-- The subtree arrives as a whole. -/
lemma mem_preorder_counterpart : ∀ e ∈ s.preorder, f e ∈ (f s).preorder :=
  forall_mem_preorder (mem_preorder_self _) fun p hp hfp c hc =>
    child_mem_preorder hfp (h.children p (preorder_trans h.mem_old hp) c hc
      (h.ne_of_mem_descendants (child_mem_descendants hp hc)))

lemma mem_descendants_counterpart (he : e ∈ s.preorder) (hne : e ≠ s) :
    f e ∈ (f s).descendants := by
  refine (mem_preorder.1 (h.mem_preorder_counterpart e he)).resolve_left fun heq => hne ?_
  exact h.bijOn.injOn (preorder_trans h.mem_old he) h.mem_old heq

/-- The subtree is put somewhere outside itself. -/
lemma not_mem_children (hp : p ∈ s.preorder) : f s ∉ (f p).children := fun hin =>
  ((wellPlaced_root new).of_mem (h.mem h.mem_old)).seq_ne_of_mem_descendants
    (child_mem_descendants (h.mem_preorder_counterpart p hp) hin) rfl

/-- The top of the subtree went from one place and came to another. -/
lemma staysInPlace : StaysInPlace (root old) (root new) f (fun e => e.seq == s.seq)
    fun e => e.seq == (f s).seq where
  mem _ he := h.mem he
  type_eq := h.type_eq
  mem_children_iff p hp d := by
    constructor
    · rintro ⟨hd, hfresh⟩
      obtain ⟨c, hc, rfl⟩ := h.bijOn.surjOn (child_mem_preorder (h.mem hp) hd)
      rw [beq_eq_false_iff_ne, Ne, h.seq_eq_iff hc] at hfresh
      refine ⟨c, mem_children_of_stays h.bijOn.mapsTo h.bijOn.injOn (wellPlaced_root new) h.roots hp
        hc (fun q hq hcq => h.children q hq c hcq ?_) hd, beq_eq_false_iff_ne.2 hfresh, rfl⟩
      rintro rfl
      exact hfresh rfl
    · rintro ⟨c, hc, hloose, rfl⟩
      rw [beq_eq_false_iff_ne] at hloose
      refine ⟨h.children p hp c hc fun heq => hloose (congrArg Entry.seq heq), ?_⟩
      rwa [beq_eq_false_iff_ne, Ne, h.seq_eq_iff (child_mem_preorder hp hc)]
  order p hp a ha b hb hal hbl := by
    rw [beq_eq_false_iff_ne] at hal hbl
    exact h.order p hp a ha b hb (fun heq => hal (congrArg Entry.seq heq))
      fun heq => hbl (congrArg Entry.seq heq)

lemma keepsKeys : KeepsKeys (root old) (root new) f (fun e => e.seq == s.seq)
    fun e => e.seq == (f s).seq := by
  have hloose : ∀ {p c}, p ∈ (root old).preorder → c ∈ p.children → (c.seq == s.seq) = true →
      c = s := fun hp hc hseq => h.eq_of_seq (child_mem_preorder hp hc) (beq_iff_eq.1 hseq)
  have hfresh : ∀ {p d}, p ∈ (root old).preorder → d ∈ (f p).children →
      (d.seq == (f s).seq) = true → d = f s := fun hp hd hseq =>
    (wellPlaced_root new).eq_of_seq (child_mem_preorder (h.mem hp) hd) (h.mem h.mem_old)
      (beq_iff_eq.1 hseq)
  refine ⟨h.staysInPlace, ?_, ?_, ?_⟩
  · intro p hp c hc hcs
    have hne : c ≠ s := fun heq => beq_eq_false_iff_ne.1 hcs (congrArg Entry.seq heq)
    refine h.staysInPlace.key_eq hp hc (h.identifier_eq (child_mem_preorder hp hc)) ?_
    rintro (⟨d, hd, htype, hseq⟩ | ⟨d, hd, htype, hseq⟩)
    · obtain rfl := hloose hp hd hseq
      exact h.key_eq p hp (Or.inl hd) c hc hne htype.symm
    · obtain rfl := hfresh hp hd hseq
      rw [h.type_eq s h.mem_old] at htype
      exact h.key_eq p hp (Or.inr hd) c hc hne htype.symm
  · intro p hp o ho hseq n hn htype hkey
    obtain rfl := hloose hp ho hseq
    have hstays : (n.seq == (f o).seq) = false := Bool.eq_false_iff.2 fun hin =>
      h.taken p hp ho (hfresh hp hn hin ▸ hn)
    obtain ⟨c, hc, hco, rfl⟩ := (h.staysInPlace.mem_children_iff p hp n).1 ⟨hn, hstays⟩
    have hcold := child_mem_preorder hp hc
    rw [h.type_eq c hcold] at htype
    have hname := (key_eq_iff.1 hkey).1
    rw [h.identifier_eq hcold] at hname
    exact beq_eq_false_iff_ne.1 hco (congrArg Entry.seq (h.once c hcold htype hname.symm))
  · intro p hp n hn hseq o ho htype hkey
    obtain rfl := hfresh hp hn hseq
    rw [h.type_eq s h.mem_old] at htype
    have hname := (key_eq_iff.1 hkey).1
    rw [h.identifier_eq h.mem_old] at hname
    obtain rfl := h.once o (child_mem_preorder hp ho) htype hname
    exact h.taken p hp ho hn

/-! ## The links in place -/

/-- **What lies outside the subtree is joined in place,** and nothing else. -/
theorem mem_linkInPlace : l ∈ linkInPlace threshold (root old) (root new) ↔
    l.kind = .exact ∧ l.old ∈ (root old).preorder ∧ l.old ∉ s.preorder ∧ l.new = f l.old := by
  have hold := wellPlaced_root old
  have hnew := wellPlaced_root new
  have hstages : ∀ p ∈ (root old).preorder, p ∉ s.preorder →
      ∀ l, l ∈ linkChildren threshold [⟨root old, root new, .exact⟩] p (f p) ↔
        l.kind = .exact ∧ l.old ∈ p.children ∧ l.old ∉ s.preorder ∧ l.new = f l.old := by
    intro p hp hps l
    have hone : (∀ c ∈ p.children, (c.seq == s.seq) = false) ∨
        ∀ n ∈ (f p).children, (n.seq == (f s).seq) = false := by
      by_cases hsp : s ∈ p.children
      · refine Or.inr fun n hn => beq_eq_false_iff_ne.2 fun hseq => h.taken p hp hsp ?_
        exact hnew.eq_of_seq (child_mem_preorder (h.mem hp) hn) (h.mem h.mem_old) hseq ▸ hn
      · refine Or.inl fun c hc => beq_eq_false_iff_ne.2 fun hseq => hsp ?_
        exact h.eq_of_seq (child_mem_preorder hp hc) hseq ▸ hc
    rw [h.keepsKeys.mem_linkChildren hp
      (fun c hc => freeOld_of_mem_descendants hold (child_mem_descendants hp hc))
      (fun c hc => freeNew_of_mem_descendants hnew (child_mem_descendants (h.mem hp) hc)) hone]
    refine and_congr_right fun _ => and_congr_right fun hc => and_congr_left fun _ => ?_
    rw [beq_eq_false_iff_ne, Ne, h.child_mem_iff hp hps hc]
  exact mem_linkInPlace_of_stages hold hnew (fun e => e ∉ s.preorder) (fun _ => .exact) hstages
    (fun p _ c hc hcs hps => hcs (child_mem_preorder hps hc)) h.root_not_mem h.roots rfl

/-- The subtree is free after the descent. -/
lemma freeOld_iff (he : e ∈ (root old).preorder) :
    (linkInPlace threshold (root old) (root new)).freeOld e = true ↔ e ∈ s.preorder := by
  constructor
  · intro hfree
    by_contra hes
    have hlink : (⟨e, f e, .exact⟩ : Link) ∈ linkInPlace threshold (root old) (root new) :=
      h.mem_linkInPlace.2 ⟨rfl, he, hes, rfl⟩
    exact Links.freeOld_iff.1 hfree _ hlink rfl
  · intro hes
    refine Links.freeOld_iff.2 fun l hl hseq => ?_
    obtain ⟨-, hold, hls, -⟩ := h.mem_linkInPlace.1 hl
    exact hls ((wellPlaced_root old).eq_of_seq hold he hseq ▸ hes)

/-- So are its counterparts. -/
lemma freeNew_iff (he : e ∈ (root old).preorder) :
    (linkInPlace threshold (root old) (root new)).freeNew (f e) = true ↔ e ∈ s.preorder := by
  rw [← h.freeOld_iff he, Links.freeOld_iff, Links.freeNew_iff]
  refine forall_congr' fun l => forall_congr' fun hl => not_congr ?_
  obtain ⟨-, hold, -, hnew⟩ := h.mem_linkInPlace.1 hl
  rw [hnew, seq_eq_iff_of_injOn h.bijOn.mapsTo h.bijOn.injOn (wellPlaced_root old)
    (wellPlaced_root new) hold he]

end

/-! ## The first candidate -/

/-- The subtree with itself. -/
def move (f : Entry → Entry) (s : Entry) : MoveCandidate := ⟨⟨s, f s, .one⟩, true⟩

section

variable (h : Relocation (root old) (root new) f s)

include h

lemma meets_move (threshold : Binary64) :
    (move f s).Meets threshold (linkInPlace threshold (root old) (root new))
    (root old) (root new) where
  old_mem := h.mem_old
  new_mem := h.mem h.mem_old
  old_free := (h.freeOld_iff h.mem_old).2 (mem_preorder_self s)
  new_free := (h.freeNew_iff h.mem_old).2 (mem_preorder_self s)
  old_identified := h.identified
  new_identified := by
    rw [move, isIdentified, h.identifier_eq h.mem_old]
    exact h.identified
  type_eq := (h.type_eq s h.mem_old).symm
  candidate := if_pos (h.identifier_eq h.mem_old).symm

section

variable {d : MoveCandidate}
  (hd : d.Meets threshold (linkInPlace threshold (root old) (root new)) (root old) (root new))

include hd

/-- The entries of a candidate lie in the subtree. -/
lemma mem_of_meets : d.old ∈ s.preorder ∧ ∃ b ∈ s.preorder, f b = d.new := by
  obtain ⟨b, hb, hbn⟩ := h.bijOn.surjOn hd.new_mem
  exact ⟨(h.freeOld_iff hd.old_mem).1 hd.old_free, b,
    (h.freeNew_iff hb).1 (hbn ▸ hd.new_free), hbn⟩

/-- A candidate with one name, one entry of which is the top of the subtree, is the subtree with
itself. -/
lemma eq_move_of_sameName (hsame : d.sameName = true) (htop : d.old = s ∨ d.new = f s) :
    d = move f s := by
  obtain ⟨-, b, hbs, hbn⟩ := h.mem_of_meets hd
  have hb := preorder_trans h.mem_old hbs
  have htype : d.old.type = b.type := by rw [hd.type_eq, ← hbn, h.type_eq b hb]
  have hname : d.old.identifier = b.identifier := by
    rw [hd.sameName_iff.1 hsame, ← hbn, h.identifier_eq hb]
  have hboth : d.old = s ∧ b = s := by
    rcases htop with heq | heq
    · exact ⟨heq, h.once b hb (by rw [← htype, heq]) (by rw [← hname, heq])⟩
    · have hbeq : b = s := h.bijOn.injOn hb h.mem_old (hbn.trans heq)
      exact ⟨h.once d.old hd.old_mem (by rw [htype, hbeq]) (by rw [hname, hbeq]), hbeq⟩
  have hcandidate := hd.candidate
  rw [hboth.1, ← hbn, hboth.2] at hcandidate
  exact Option.some.inj (hcandidate.symm.trans (h.meets_move threshold).candidate)

/-- Every other candidate comes later: it lies deeper, or it has two names. -/
lemma not_notAfter_move (hne : d ≠ move f s) : ¬lexNotAfter d.key (move f s).key = true := by
  obtain ⟨hos, b, hbs, hbn⟩ := h.mem_of_meets hd
  have hsw := (wellPlaced_root old).of_mem h.mem_old
  have hfsw := (wellPlaced_root new).of_mem (h.mem h.mem_old)
  have hold : s.depth ≤ d.old.depth := hsw.depth_le hos
  have hnew : (f s).depth ≤ d.new.depth :=
    hbn ▸ hfsw.depth_le (h.mem_preorder_counterpart b hbs)
  rw [MoveCandidate.key, MoveCandidate.key, lexNotAfter_cons, lexNotAfter_cons]
  simp only [move, if_true]
  by_cases htop : d.old = s ∨ d.new = f s
  · have hnames : d.sameName = false := Bool.eq_false_iff.2 fun hsame =>
      hne (h.eq_move_of_sameName hd hsame htop)
    rw [hnames]
    simp only [Bool.false_eq_true, if_false]
    omega
  · obtain ⟨hdo, hdn⟩ := not_or.1 htop
    have hbne : b ≠ s := fun heq => hdn (by rw [← hbn, heq])
    have hold' := hsw.depth_lt ((mem_preorder.1 hos).resolve_left hdo)
    have hnew' := hfsw.depth_lt (h.mem_descendants_counterpart hbs hbne)
    rw [hbn] at hnew'
    omega

end

/-- **The subtree is the first candidate for a move.** -/
theorem exists_moveCandidates_eq (threshold : Binary64) : ∃ rest,
    moveCandidates threshold (linkInPlace threshold (root old) (root new)) (root old) (root new) =
      move f s :: rest := by
  have hmem := mem_moveCandidates.2 (h.meets_move threshold)
  have hsorted := pairwise_moveCandidates threshold (linkInPlace threshold (root old) (root new))
    (root old) (root new)
  have hfirst : ∀ d ∈ moveCandidates threshold (linkInPlace threshold (root old) (root new))
      (root old) (root new), d ≠ move f s → ¬lexNotAfter d.key (move f s).key = true :=
    fun d hd => h.not_notAfter_move (mem_moveCandidates.1 hd)
  generalize moveCandidates threshold (linkInPlace threshold (root old) (root new)) (root old)
    (root new) = candidates at *
  cases candidates with
  | nil => exact absurd hmem List.not_mem_nil
  | cons d rest =>
    refine ⟨rest, ?_⟩
    by_contra hne
    have hd : d ≠ move f s := fun heq => hne (heq ▸ rfl)
    have hlater := (List.mem_cons.1 hmem).resolve_left (Ne.symm hd)
    exact hfirst d List.mem_cons_self hd ((List.pairwise_cons.1 hsorted).1 _ hlater)

/-! ## All links -/

/-- What is joined when the descent starts at the top is the top, or it lies outside the subtree. -/
lemma of_mem_cons_move (hl : l ∈ (move f s).link :: linkInPlace threshold (root old) (root new)) :
    l.old ∈ (root old).preorder ∧ l.new = f l.old ∧ l.old ∉ s.descendants := by
  rcases List.mem_cons.1 hl with rfl | hl
  · exact ⟨h.mem_old, rfl, fun hin => h.ne_of_mem_descendants hin rfl⟩
  · obtain ⟨-, hold, hls, hnew⟩ := h.mem_linkInPlace.1 hl
    exact ⟨hold, hnew, fun hin => hls (mem_preorder_of_mem_descendants hin)⟩

/-- So what lies below the top is still free. -/
lemma free_of_mem_descendants (he : e ∈ s.descendants) :
    Links.freeOld ((move f s).link :: linkInPlace threshold (root old) (root new)) e = true ∧
      Links.freeNew ((move f s).link :: linkInPlace threshold (root old) (root new)) (f e) =
        true := by
  have hold := wellPlaced_root old
  have heold := mem_preorder_of_mem_descendants (descendants_trans h.mem_old he)
  constructor
  · refine Links.freeOld_iff.2 fun m hm hseq => ?_
    obtain ⟨hmold, -, hms⟩ := h.of_mem_cons_move hm
    exact hms (hold.eq_of_seq hmold heold hseq ▸ he)
  · refine Links.freeNew_iff.2 fun m hm hseq => ?_
    obtain ⟨hmold, hmnew, hms⟩ := h.of_mem_cons_move hm
    rw [hmnew, seq_eq_iff_of_injOn h.bijOn.mapsTo h.bijOn.injOn hold (wellPlaced_root new) hmold
      heold] at hseq
    exact hms (hold.eq_of_seq hmold heold hseq ▸ he)

/-- Below the top every stage joins all children with their counterparts. -/
lemma mem_linkChildren_below (hp : p ∈ s.preorder) : l ∈ linkChildren threshold
    ((move f s).link :: linkInPlace threshold (root old) (root new)) p (f p) ↔
      l.kind = .exact ∧ l.old ∈ p.children ∧ l.new = f l.old := by
  have hpold := preorder_trans h.mem_old hp
  have hloose : ∀ c ∈ p.children, (c.seq == s.seq) = false := fun c hc =>
    beq_eq_false_iff_ne.2 (((wellPlaced_root old).of_mem h.mem_old).seq_ne_of_mem_descendants
      (child_mem_descendants hp hc))
  have hfresh : ∀ n ∈ (f p).children, (n.seq == (f s).seq) = false := fun n hn =>
    beq_eq_false_iff_ne.2 fun hseq => h.not_mem_children hp ((wellPlaced_root new).eq_of_seq
      (child_mem_preorder (h.mem hpold) hn) (h.mem h.mem_old) hseq ▸ hn)
  have hfreeNew : ∀ n ∈ (f p).children, Links.freeNew
      ((move f s).link :: linkInPlace threshold (root old) (root new)) n = true := by
    intro n hn
    obtain ⟨c, hc, -, rfl⟩ := (h.staysInPlace.mem_children_iff p hpold n).1 ⟨hn, hfresh n hn⟩
    exact (h.free_of_mem_descendants (child_mem_descendants hp hc)).2
  rw [h.keepsKeys.mem_linkChildren hpold
    (fun c hc => (h.free_of_mem_descendants (child_mem_descendants hp hc)).1) hfreeNew
    (Or.inr hfresh)]
  refine and_congr_right fun _ => and_congr_right fun hc => ?_
  rw [hloose _ hc]
  exact and_iff_right rfl

/-- **The descent below the top takes the subtree along.** -/
theorem inPlace_iff : InPlace threshold
    ((move f s).link :: linkInPlace threshold (root old) (root new)) s (f s) l ↔
      l.kind = .exact ∧ l.old ∈ s.descendants ∧ l.new = f l.old := by
  have hstages : ∀ p ∈ s.preorder, True → ∀ l, l ∈ linkChildren threshold
      ((move f s).link :: linkInPlace threshold (root old) (root new)) p (f p) ↔
        l.kind = .exact ∧ l.old ∈ p.children ∧ True ∧ l.new = f l.old := fun p hp _ l => by
    rw [h.mem_linkChildren_below hp, true_and]
  have hdescent := InPlace.iff_of_stages (fun _ => True) (fun _ => .exact) hstages
    (fun _ _ _ _ _ => trivial) trivial (l := l)
  rwa [true_and] at hdescent

/-- What is joined after the first visit. -/
lemma mem_acceptMove_move :
    l ∈ acceptMove threshold (linkInPlace threshold (root old) (root new)) (move f s) ↔
      l.kind = (if l.old.seq = s.seq then .moved else .exact) ∧ l.old ∈ (root old).preorder ∧
        l.new = f l.old := by
  have hsw := (wellPlaced_root old).of_mem h.mem_old
  have hfree := h.meets_move threshold
  have hvisit : l ∈ acceptMove threshold (linkInPlace threshold (root old) (root new)) (move f s) ↔
      (l.kind = .exact ∧ l.old ∈ (root old).preorder ∧ l.old ∉ s.preorder ∧ l.new = f l.old) ∨
        l = (move f s).link ∨ l.kind = .exact ∧ l.old ∈ s.descendants ∧ l.new = f l.old := by
    rw [mem_acceptMove hsw ((wellPlaced_root new).of_mem (h.mem h.mem_old)),
      and_iff_right ⟨hfree.old_free, hfree.new_free⟩, h.mem_linkInPlace]
    exact or_congr Iff.rfl (or_congr Iff.rfl h.inPlace_iff)
  rw [hvisit]
  constructor
  · rintro (⟨hkind, hold, hls, hnew⟩ | rfl | ⟨hkind, hold, hnew⟩)
    · have hne : l.old.seq ≠ s.seq := fun hseq => hls (h.eq_of_seq hold hseq ▸ mem_preorder_self s)
      exact ⟨by rw [hkind, if_neg hne], hold, hnew⟩
    · exact ⟨(if_pos rfl).symm, h.mem_old, rfl⟩
    · have hne := hsw.seq_ne_of_mem_descendants hold
      exact ⟨by rw [hkind, if_neg hne], mem_preorder_of_mem_descendants
        (descendants_trans h.mem_old hold), hnew⟩
  · rintro ⟨hkind, hold, hnew⟩
    by_cases hls : l.old ∈ s.preorder
    · rcases mem_preorder.1 hls with heq | hls
      · rw [heq, if_pos rfl] at hkind
        rw [heq] at hnew
        refine Or.inr (Or.inl ?_)
        rw [move, MoveCandidate.link, if_pos rfl, ← hnew, ← hkind, ← heq]
      · rw [if_neg (hsw.seq_ne_of_mem_descendants hls)] at hkind
        exact Or.inr (Or.inr ⟨hkind, hls, hnew⟩)
    · rw [if_neg fun hseq => hls (h.eq_of_seq hold hseq ▸ mem_preorder_self s)] at hkind
      exact Or.inl ⟨hkind, hold, hls, hnew⟩

/-- **Every entry is joined with its counterpart:** the top of the subtree by its name, as a move,
and the others by their keys. -/
theorem mem_linkTrees : l ∈ linkTrees threshold (root old) (root new) ↔
    l.kind = (if l.old.seq = s.seq then .moved else .exact) ∧ l.old ∈ (root old).preorder ∧
      l.new = f l.old := by
  obtain ⟨rest, hrest⟩ := h.exists_moveCandidates_eq threshold
  -- no other candidate is free after the first visit
  have hnone : ∀ d ∈ rest, ¬d.IsFree (acceptMove threshold
      (linkInPlace threshold (root old) (root new)) (move f s)) := by
    intro d hd hfree
    have hmeets := mem_moveCandidates.1 (hrest ▸ List.mem_cons_of_mem _ hd)
    have hjoined : (⟨d.old, f d.old, if d.old.seq = s.seq then .moved else .exact⟩ : Link) ∈
        acceptMove threshold (linkInPlace threshold (root old) (root new)) (move f s) :=
      h.mem_acceptMove_move.2 ⟨rfl, hmeets.old_mem, rfl⟩
    exact Links.freeOld_iff.1 hfree.1 _ hjoined rfl
  rw [linkTrees, linkMoves, hrest, List.foldl_cons, foldl_acceptMove_of_not_isFree hnone,
    h.mem_acceptMove_move]

end

end Entry.Relocation

end

/-- **A subtree that is taken elsewhere is one move,** from its old breadcrumb to its new one,
whatever lies in it and however deep it lies. -/
theorem diff_of_relocation (d : Differ) (fullText : Bool) (old new : Node) {f : Entry → Entry}
    {s : Entry}
    (h : Entry.Relocation (.root (.ofNode d.schema old)) (.root (.ofNode d.schema new)) f s) :
    ∃ result, d.diff fullText (some old) (some new) = .ok result ∧
      result.changes = [changed (d.limit fullText) .move s (f s)] ∧
      ∀ c ∈ result.changes, c.kind = .move ∧ c.oldPath = some s.path ∧
        c.newPath = some (f s).path := by
  have hchange : Link.change? ⟨s, f s, .moved⟩ = some .move := by
    simp [Link.change?, h.path_ne]
  have hchanges : (d.diffOutlines fullText (.ofNode d.schema old) (.ofNode d.schema new)).changes =
      [changed (d.limit fullText) .move s (f s)] :=
    Differ.changes_eq_changed (fun l => h.mem_linkTrees) (fun e he => h.bijOn.surjOn he)
      h.below_root (fun e he _ => h.intents_eq e he) hchange
  refine ⟨_, rfl, hchanges, fun c hc => ?_⟩
  rw [hchanges, List.mem_singleton] at hc
  rw [hc]
  exact ⟨rfl, rfl, rfl⟩

/-- A function in a block and one after it. -/
def Node.beforeRelocation : Node :=
  .programOf [.blockOf [.ofFunction "f" "1"], .ofFunction "g" "2"]

/-- The first function after the second one. -/
def Node.afterRelocation : Node :=
  .programOf [.blockOf [], .ofFunction "g" "2", .ofFunction "f" "1"]

/-- The counterparts of the nodes of the two programs. -/
def Entry.relocated : Entry → Entry :=
  (Entry.root (.ofNode .functions .afterRelocation)).renumbered [0, 1, 5, 6, 7, 2, 3, 4]

/-- What lies below the function goes along and is not reported. -/
theorem moved_beforeRelocation_afterRelocation :
    ∃ s, Entry.Relocation (.root (.ofNode .functions .beforeRelocation))
        (.root (.ofNode .functions .afterRelocation)) Entry.relocated s ∧
      s.descendants.length = 2 ∧
      ∃ result, Differ.diff (.usual .functions) false (some .beforeRelocation)
          (some .afterRelocation) = .ok result ∧
        result.changes.map (fun c => (c.kind, c.oldIdentity, c.oldPath, c.newPath)) =
          [(.move, some "f", some "block", some "")] := by
  have hold := Entry.wellPlaced_root (.ofNode .functions .beforeRelocation)
  have hnew := Entry.wellPlaced_root (.ofNode .functions .afterRelocation)
  have hfunction : ∃ s ∈ (Entry.root (.ofNode .functions .beforeRelocation)).descendants,
      s.identifier = some "f" ∧ s.path = "block" ∧ s.relocated.path = "" ∧
      s.descendants.length = 2 ∧
      (∀ p ∈ (Entry.root (.ofNode .functions .beforeRelocation)).preorder, ∀ c ∈ p.children,
        c.seq ≠ s.seq → c.relocated.parent = some p.relocated.seq) ∧
      (∀ p ∈ (Entry.root (.ofNode .functions .beforeRelocation)).preorder,
        s.parent = some p.seq → s.relocated.parent ≠ some p.relocated.seq) ∧
      (∀ e ∈ (Entry.root (.ofNode .functions .beforeRelocation)).preorder,
        e.identifier = some "f" → e.seq = s.seq) ∧
      ∀ p ∈ (Entry.root (.ofNode .functions .beforeRelocation)).preorder, ∀ c ∈ p.children,
        c.seq ≠ s.seq → c.type = s.type → c.relocated.key = c.key := by
    decide +kernel
  obtain ⟨s, hs, hname, hpath, hpath', hlength, hchildren, htaken, honce, hkeys⟩ := hfunction
  have hsold := Entry.mem_preorder_of_mem_descendants hs
  have hmem : ∀ e : Entry, e.relocated ∈
      (Entry.root (.ofNode .functions .afterRelocation)).preorder :=
    fun _ => Entry.renumbered_mem _ _ _
  have hseq : ∀ p ∈ (Entry.root (.ofNode .functions .beforeRelocation)).preorder, ∀ c ∈ p.children,
      c ≠ s → c.seq ≠ s.seq := fun p hp c hc hne heq =>
    hne (hold.eq_of_seq (Entry.child_mem_preorder hp hc) hsold heq)
  have horder : ∀ p ∈ (Entry.root (.ofNode .functions .beforeRelocation)).preorder,
      ∀ a ∈ p.children, ∀ b ∈ p.children, a.seq < b.seq → a.relocated.seq < b.relocated.seq := by
    decide +kernel
  have h : Entry.Relocation (.root (.ofNode .functions .beforeRelocation))
      (.root (.ofNode .functions .afterRelocation)) Entry.relocated s := by
    refine ⟨hs, Entry.bijOn_of_seq (fun e _ => hmem e) hnew.distinct ?_,
      hnew.eq_of_seq (hmem _) (Entry.mem_preorder_self _) ?_,
      fun p hp c hc hne => Entry.mem_children_of_parent hnew rfl (hmem p) (hmem c)
        (hchildren p hp c hc (hseq p hp c hc hne)),
      fun p hp hsp hin => htaken p hp (hold.parent_eq p hp s hsp) (hnew.parent_eq _ (hmem p) _ hin),
      fun p hp a ha b hb _ _ => horder p hp a ha b hb, ?_, ?_, ?_,
      fun e he _ hid => hold.eq_of_seq he hsold (honce e he (hid.trans hname)),
      fun p hp _ c hc hne => hkeys p hp c hc (hseq p hp c hc hne), ?_⟩
    case refine_5 => rw [Entry.isIdentified, hname, Option.isSome_some]
    case refine_6 =>
      rw [hpath, hpath']
      decide
    all_goals decide +kernel
  obtain ⟨result, hresult, hchanges, -⟩ :=
    diff_of_relocation (.usual .functions) false .beforeRelocation .afterRelocation h
  refine ⟨s, h, hlength, result, hresult, ?_⟩
  rw [hchanges, List.map_singleton, changed, hname, hpath, hpath']

end TreeDiff
