/-
# Renaming a node

One node is given another name, and everything else stays as it is.  The in-place stage joins all
other nodes by their keys.  Next to the renamed node no sibling of its type is left over in either
tree, so pairing by similarity joins it with itself if its texts are similar enough, and the descent
goes on below it as if it had kept its name.  Breadcrumbs below it change, but they decide nothing.
-/
import TreeDiff.Proofs.Edits

namespace TreeDiff

namespace Entry

/-- The new tree comes from the old one by giving `n` another name.  No sibling of its type has the
old name or the new one.  Everything else keeps its place, its type and its intents. -/
structure Renaming (old new : Entry) (f : Entry → Entry) (n : Entry) : Prop
    extends Counterparts old new f where
  below_root : n ∈ old.descendants
  order : ∀ p ∈ old.preorder, ∀ a ∈ p.children, ∀ b ∈ p.children, a.seq < b.seq →
    (f a).seq < (f b).seq
  type_eq : ∀ e ∈ old.preorder, (f e).type = e.type
  intents_eq : ∀ e ∈ old.preorder, e ≠ n → (f e).outline.intents = e.outline.intents
  renamed : ∃ a b, n.identifier = some a ∧ (f n).identifier = some b ∧ a ≠ b
  unused : ∀ p ∈ old.preorder, n ∈ p.children → ∀ e ∈ p.children, e.type = n.type → e ≠ n →
    e.identifier ≠ n.identifier ∧ e.identifier ≠ (f n).identifier

end Entry

section

variable {threshold : Binary64} {old new : Outline} {p c n : Entry} {f : Entry → Entry} {l : Link}
  {type : String}

namespace Entry.Renaming

lemma mem_old (h : Renaming (root old) (root new) f n) : n ∈ (root old).preorder :=
  mem_preorder_of_mem_descendants h.below_root

lemma identifier_ne (h : Renaming (root old) (root new) f n) :
    n.identifier ≠ (f n).identifier := by
  obtain ⟨a, b, ha, hb, hne⟩ := h.renamed
  rw [ha, hb]
  exact fun heq => hne (Option.some.inj heq)

lemma seq_eq_iff (h : Renaming (root old) (root new) f n) (hc : c ∈ (root old).preorder) :
    (f c).seq = (f n).seq ↔ c.seq = n.seq :=
  seq_eq_iff_of_injOn h.bijOn.mapsTo h.bijOn.injOn (wellPlaced_root old) (wellPlaced_root new) hc
    h.mem_old

lemma ne_of_seq_ne (h : c.seq ≠ n.seq) : c ≠ n := fun heq => h (congrArg Entry.seq heq)

/-- A renaming moves nothing. -/
lemma staysInPlace (h : Renaming (root old) (root new) f n) :
    StaysInPlace (root old) (root new) f (fun _ => false) fun _ => false where
  mem _ he := h.mem he
  type_eq := h.type_eq
  mem_children_iff p hp d := by
    simp [h.mem_children_iff (wellPlaced_root new) hp]
  order p hp a ha b hb _ _ := h.order p hp a ha b hb

/-- Everything but the renamed node keeps its key. -/
lemma key_eq (h : Renaming (root old) (root new) f n) (hp : p ∈ (root old).preorder)
    (hc : c ∈ p.children) (hne : c ≠ n) : (f c).key = c.key := by
  have hintents := h.intents_eq c (child_mem_preorder hp hc) hne
  exact h.staysInPlace.key_eq hp hc (identifier_eq_of_intents_eq hintents) (by simp)

/-- Seen by its key, the renamed node went and another one came in its place. -/
lemma keepsKeys (h : Renaming (root old) (root new) f n) :
    KeepsKeys (root old) (root new) f (fun e => e.seq == n.seq) fun e => e.seq == (f n).seq := by
  have hold := wellPlaced_root old
  have hchild : ∀ {p d}, p ∈ (root old).preorder → d ∈ (f p).children →
      ∃ c ∈ p.children, c ∈ (root old).preorder ∧ f c = d := by
    intro p d hp hd
    obtain ⟨c, hc, hcd⟩ := (h.mem_children_iff (wellPlaced_root new) hp).1 hd
    exact ⟨c, hc, child_mem_preorder hp hc, hcd⟩
  have hself : ∀ {c}, c ∈ (root old).preorder → (c.seq == n.seq) = true → c = n := fun hc hseq =>
    hold.eq_of_seq hc h.mem_old (beq_iff_eq.1 hseq)
  -- a key that is a name is shared with those of this name only
  have hname : ∀ {a b : Entry}, a.identifier ≠ b.identifier → a.key ≠ b.key := fun hne hkey =>
    hne (key_eq_iff.1 hkey).1
  refine ⟨⟨fun _ he => h.mem he, h.type_eq, ?_, fun p hp a ha b hb _ _ => h.order p hp a ha b hb⟩,
    ?_, ?_, ?_⟩
  · intro p hp d
    rw [h.mem_children_iff (wellPlaced_root new) hp]
    constructor
    · rintro ⟨⟨c, hc, rfl⟩, hfresh⟩
      rw [beq_eq_false_iff_ne, Ne, h.seq_eq_iff (child_mem_preorder hp hc)] at hfresh
      exact ⟨c, hc, beq_eq_false_iff_ne.2 hfresh, rfl⟩
    · rintro ⟨c, hc, hloose, rfl⟩
      rw [beq_eq_false_iff_ne, Ne, ← h.seq_eq_iff (child_mem_preorder hp hc)] at hloose
      exact ⟨⟨c, hc, rfl⟩, beq_eq_false_iff_ne.2 hloose⟩
  · intro p hp c hc hloose
    exact h.key_eq hp hc (ne_of_seq_ne (beq_eq_false_iff_ne.1 hloose))
  · intro p hp o ho hloose m hm htype
    obtain rfl := hself (child_mem_preorder hp ho) hloose
    obtain ⟨c, hc, hcold, rfl⟩ := hchild hp hm
    rw [h.type_eq c hcold] at htype
    by_cases hne : c = o
    · rw [hne]
      exact hname h.identifier_ne
    · rw [h.key_eq hp hc hne]
      exact hname (h.unused p hp ho c hc htype hne).1.symm
  · intro p hp m hm hfresh o ho htype
    obtain ⟨c, hc, hcold, rfl⟩ := hchild hp hm
    obtain rfl := hself hcold (beq_iff_eq.2 ((h.seq_eq_iff hcold).1 (beq_iff_eq.1 hfresh)))
    rw [h.type_eq c hcold] at htype
    by_cases hne : o = c
    · rw [hne]
      exact hname h.identifier_ne
    · exact hname (h.unused p hp hc o ho htype hne).2

/-! ## The links -/

/-- Pairing by similarity has nothing to choose from but the renamed node. -/
lemma mem_pairSimilar (h : Renaming (root old) (root new) f n) (hp : p ∈ (root old).preorder)
    (hreaches : reaches threshold (n.similarity threshold (f n)) = true) {a b : Entry} :
    (∃ c ∈ pairSimilar threshold (leftOver (fun e => !(e.seq == n.seq)) (ofType type p.children))
        (leftOver (fun e => !(e.seq == (f n).seq)) (ofType type (f p).children)),
      c.old = a ∧ c.new = b) ↔ n ∈ ofType type p.children ∧ a = n ∧ b = f n := by
  have hold : ∀ e, e ∈ leftOver (fun e => !(e.seq == n.seq)) (ofType type p.children) →
      e = n ∧ n ∈ ofType type p.children := by
    intro e he
    rw [mem_leftOver, mem_ofType] at he
    obtain ⟨⟨he, htype⟩, -, hseq⟩ := he
    obtain rfl := (wellPlaced_root old).eq_of_seq (child_mem_preorder hp he) h.mem_old
      (by simpa using hseq)
    exact ⟨rfl, mem_ofType.2 ⟨he, htype⟩⟩
  by_cases hn : n ∈ ofType type p.children
  · obtain ⟨x, y, hx, hy, -⟩ := h.renamed
    obtain ⟨hnp, htype⟩ := mem_ofType.1 hn
    have hfn : f n ∈ (f p).children := h.children p hp n hnp
    refine (mem_pairSimilar_of_single (fun e => ⟨fun he => (hold e he).1, ?_⟩) (fun e => ?_)
      hreaches).trans (and_iff_right hn).symm
    · rintro rfl
      exact mem_leftOver.2 ⟨hn, by simp [isIdentified, hx], by simp⟩
    · rw [mem_leftOver, mem_ofType]
      constructor
      · rintro ⟨⟨he, -⟩, -, hseq⟩
        exact (wellPlaced_root new).eq_of_seq (child_mem_preorder (h.mem hp) he) (h.mem h.mem_old)
          (by simpa using hseq)
      · rintro rfl
        exact ⟨⟨hfn, (h.type_eq n h.mem_old).trans htype⟩, by simp [isIdentified, hy], by simp⟩
  · refine iff_of_false ?_ fun hall => hn hall.1
    rintro ⟨c, hc, -⟩
    exact hn (hold _ (mem_similarCandidates.1 (mem_candidates_of_mem_pairSimilar hc)).1).2

/-- How an entry is joined with its counterpart. -/
def kindOf (n e : Entry) : LinkKind := if e.seq = n.seq then .similar else .exact

lemma mem_linkChildren (h : Renaming (root old) (root new) f n) (hp : p ∈ (root old).preorder)
    (hreaches : reaches threshold (n.similarity threshold (f n)) = true) :
    l ∈ linkChildren threshold [⟨root old, root new, .exact⟩] p (f p) ↔
      l.kind = kindOf n l.old ∧ l.old ∈ p.children ∧ l.new = f l.old := by
  have hpw := (wellPlaced_root old).of_mem hp
  have hqw := (wellPlaced_root new).of_mem (h.mem hp)
  rw [mem_linkChildren_of_free
    (fun c hc => freeOld_of_mem_descendants (wellPlaced_root old) (child_mem_descendants hp hc))
    (fun c hc => freeNew_of_mem_descendants (wellPlaced_root new)
      (child_mem_descendants (h.mem hp) hc)),
    (h.keepsKeys.keptRow hp l.old.type).mem_linkSiblings (nodup_seq_ofType hpw _)
      (nodup_seq_ofType hqw _), h.mem_pairSimilar hp hreaches, mem_ofType, mem_ofType, kindOf]
  by_cases hseq : l.old.seq = n.seq
  · simp only [hseq, if_true, beq_self_eq_true, Bool.not_true, Bool.false_eq_true, false_and,
      and_false, false_or]
    refine and_congr_right fun _ => ⟨?_, ?_⟩
    · rintro ⟨⟨hn, -⟩, hl, hnew⟩
      rw [hl]
      exact ⟨hn, hnew⟩
    · rintro ⟨hl, hnew⟩
      have heq := (wellPlaced_root old).eq_of_seq (child_mem_preorder hp hl) h.mem_old hseq
      rw [heq] at hl hnew ⊢
      exact ⟨⟨hl, rfl⟩, rfl, hnew⟩
  · have hne : l.old ≠ n := ne_of_seq_ne hseq
    simp [hseq, hne]

/-- **Every entry is joined with its counterpart:** the renamed one by the similarity of its texts,
and the others by their keys. -/
theorem mem_linkTrees (h : Renaming (root old) (root new) f n)
    (hreaches : reaches threshold (n.similarity threshold (f n)) = true) :
    l ∈ linkTrees threshold (root old) (root new) ↔
      l.kind = kindOf n l.old ∧ l.old ∈ (root old).preorder ∧ l.new = f l.old := by
  have hold := wellPlaced_root old
  have hroot : kindOf n (root old) = .exact :=
    if_neg (hold.seq_ne_of_mem_descendants h.below_root).symm
  exact mem_linkTrees_of_all_stages (kindOf n) hold (wellPlaced_root new) h.root hroot
    fun _ hp _ => h.mem_linkChildren hp hreaches

end Entry.Renaming

end

/-! ## The report -/

/-- Two nodes with the same body reach every threshold up to one. -/
lemma reaches_similarity_of_body_eq {threshold : Binary64} {a b : Entry} {body : String}
    (ha : a.outline.intents.lookup .body = some body)
    (hb : b.outline.intents.lookup .body = some body) (hthreshold : threshold.le .one = true) :
    reaches threshold (a.similarity threshold b) = true := by
  have hone : Text.Ratio.one.toBinary64 = .one := by decide +kernel
  have hsame : a.outline.comparedText = b.outline.comparedText := by
    rw [Outline.comparedText, Outline.comparedText, ha, hb]
    rfl
  rw [Entry.similarity, Text.similarity, if_pos hsame, reaches, hone]
  exact hthreshold

/-- **A renamed node is one change.**  If its texts are similar enough, which they are for every
threshold up to one when its body stays, then the comparison reports the rename and nothing else,
whatever lies below the node and next to it. -/
theorem diff_of_renaming (d : Differ) (fullText : Bool) (old new : Node) {f : Entry → Entry}
    {n : Entry}
    (h : Entry.Renaming (.root (.ofNode d.schema old)) (.root (.ofNode d.schema new)) f n) :
    (reaches d.threshold (n.similarity d.threshold (f n)) = true →
      ∃ result, d.diff fullText (some old) (some new) = .ok result ∧
        result.changes = [changed (d.limit fullText) .rename n (f n)]) ∧
    ∀ body, n.outline.intents.lookup .body = some body →
      (f n).outline.intents.lookup .body = some body → d.threshold.le .one = true →
        reaches d.threshold (n.similarity d.threshold (f n)) = true := by
  constructor
  · intro hreaches
    have hchange : Link.change? ⟨n, f n, .similar⟩ = some .rename := by
      simp [Link.change?, h.identifier_ne]
    exact ⟨_, rfl, Differ.changes_eq_changed (fun l => h.mem_linkTrees hreaches)
      (fun e he => h.exists_eq he) h.below_root h.intents_eq hchange⟩
  · intro body hold hnew hthreshold
    exact reaches_similarity_of_body_eq hold hnew hthreshold

/-- The two functions, the first one with another name. -/
def Node.afterRename : Node := .programOf [.ofFunction "h" "1", .ofFunction "g" "2"]

/-- The counterparts of the functions and of what lies below them. -/
def Entry.renamed : Entry → Entry :=
  (Entry.root (.ofNode .functions .afterRename)).renumbered [0, 1, 2, 3, 4, 5, 6]

/-- What lies below the function has another breadcrumb, but is not reported. -/
theorem renamed_twoFunctions_afterRename :
    ∃ n, Entry.Renaming (.root (.ofNode .functions .twoFunctions))
        (.root (.ofNode .functions .afterRename)) Entry.renamed n ∧
      (∃ e ∈ n.descendants, e.path = "f" ∧ e.renamed.path = "h") ∧
      ∃ result, Differ.diff (.usual .functions) false (some .twoFunctions) (some .afterRename) =
          .ok result ∧
        result.changes.map (fun c => (c.kind, c.oldIdentity, c.newIdentity)) =
          [(.rename, some "f", some "h")] := by
  have hfirst : ∃ n ∈ (Entry.root (.ofNode .functions .twoFunctions)).descendants,
      n.identifier = some "f" ∧ n.renamed.identifier = some "h" ∧
      n.outline.intents.lookup .body = some "1" ∧
      n.renamed.outline.intents.lookup .body = some "1" ∧
      (∃ e ∈ n.descendants, e.path = "f" ∧ e.renamed.path = "h") ∧
      ∀ e ∈ (Entry.root (.ofNode .functions .twoFunctions)).preorder, e.seq ≠ n.seq →
        e.renamed.outline.intents = e.outline.intents ∧
          (e.type = n.type → e.identifier ≠ some "f" ∧ e.identifier ≠ some "h") := by
    decide +kernel
  obtain ⟨n, hn, hold, hnew, hbody, hbody', hpath, hothers⟩ := hfirst
  have hne : ∀ e ∈ (Entry.root (.ofNode .functions .twoFunctions)).preorder, e ≠ n →
      e.seq ≠ n.seq := fun e he hne hseq => hne ((Entry.wellPlaced_root _).eq_of_seq he
    (Entry.mem_preorder_of_mem_descendants hn) hseq)
  have h : Entry.Renaming (.root (.ofNode .functions .twoFunctions))
      (.root (.ofNode .functions .afterRename)) Entry.renamed n := by
    refine ⟨Entry.Counterparts.of_seq (Entry.wellPlaced_root _)
      (fun _ _ => Entry.renumbered_mem _ _ _) ?_ ?_ rfl ?_, hn, ?_, ?_,
      fun e he hen => (hothers e he (hne e he hen)).1, ⟨"f", "h", hold, hnew, by decide⟩, ?_⟩
    case refine_6 =>
      intro p hp _ e hep htype hen
      have he := Entry.child_mem_preorder hp hep
      rw [hold, hnew]
      exact (hothers e he (hne e he hen)).2 htype
    all_goals decide +kernel
  obtain ⟨hreported, hreaches⟩ :=
    diff_of_renaming (.usual .functions) false .twoFunctions .afterRename h
  obtain ⟨result, hresult, hchanges⟩ :=
    hreported (hreaches "1" hbody hbody' (by decide +kernel))
  refine ⟨n, h, hpath, result, hresult, ?_⟩
  rw [hchanges, List.map_singleton, changed, hold, hnew]

end TreeDiff
