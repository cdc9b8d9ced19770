/-
# Counterparts

Two trees are equal up to the order of siblings if their entries are counterparts of each other: the
root of the root, and the children of an entry of the children of its counterpart.  What
counterparts have in common besides, such as their types or their intents, is said apart from this.
-/
import Mathlib.Data.Set.Function
import TreeDiff.Proofs.Numbering

namespace TreeDiff

namespace Entry

section

variable {old new p c d : Entry} {f : Entry → Entry}

/-- Entries of two rows belong together one to one if their numbers do. -/
lemma bijOn_of_seq {es fs : List Entry} (hmem : ∀ e ∈ es, f e ∈ fs) (hfs : (fs.map seq).Nodup)
    (hperm : (es.map fun e => (f e).seq).Perm (fs.map seq)) :
    Set.BijOn f {e | e ∈ es} {e | e ∈ fs} := by
  refine ⟨hmem, ?_, ?_⟩
  · intro a ha b hb hab
    exact List.inj_on_of_nodup_map (hperm.nodup_iff.2 hfs) ha hb (congrArg seq hab)
  · intro d hd
    have hseq := hperm.symm.subset (List.mem_map_of_mem hd)
    obtain ⟨e, he, heq⟩ := List.mem_map.1 hseq
    exact ⟨e, he, List.inj_on_of_nodup_map hfs (hmem e he) hd heq⟩

/-- The children of an entry are those that give it as their parent. -/
lemma mem_children_of_parent (hnew : new.WellPlaced) (hnone : new.parent = none)
    (hp : p ∈ new.preorder) (hc : c ∈ new.preorder) (hparent : c.parent = some p.seq) :
    c ∈ p.children := by
  have hcnew : c ∈ new.descendants := by
    refine (mem_preorder.1 hc).resolve_left ?_
    rintro rfl
    exact Option.some_ne_none _ (hparent.symm.trans hnone)
  exact (hnew.mem_children_iff hp hcnew).2 hparent

variable (hmaps : Set.MapsTo f {e | e ∈ old.preorder} {e | e ∈ new.preorder})
  (hinj : Set.InjOn f {e | e ∈ old.preorder})

include hmaps hinj

/-- Entries are told apart by the numbers of their counterparts. -/
lemma seq_eq_iff_of_injOn (hold : old.WellPlaced) (hnew : new.WellPlaced)
    (hc : c ∈ old.preorder) (hd : d ∈ old.preorder) : (f c).seq = (f d).seq ↔ c.seq = d.seq := by
  constructor
  · intro hseq
    exact congrArg seq (hinj hc hd (hnew.eq_of_seq (hmaps hc) (hmaps hd) hseq))
  · intro hseq
    rw [hold.eq_of_seq hc hd hseq]

/-- An entry that stays below the counterpart of its parent does not lie below the counterpart of
another entry. -/
lemma mem_children_of_stays (hnew : new.WellPlaced) (hroot : f old = new) (hp : p ∈ old.preorder)
    (hc : c ∈ old.preorder) (hstays : ∀ q ∈ old.preorder, c ∈ q.children → f c ∈ (f q).children)
    (hcp : f c ∈ (f p).children) : c ∈ p.children := by
  have hcnew : f c ∈ new.descendants := child_mem_descendants (hmaps hp) hcp
  have hcold : c ∈ old.descendants := by
    refine (mem_preorder.1 hc).resolve_left ?_
    rintro rfl
    rw [hroot] at hcnew
    exact hnew.seq_ne_of_mem_descendants hcnew rfl
  obtain ⟨q, hq, hcq⟩ := exists_parent hcold
  have hpq : f p = f q := hnew.eq_of_child (hmaps hp) (hmaps hq) hcp (hstays q hq hcq)
  rwa [hinj hp hq hpq]

end

/-- A one-to-one relation between the entries of two trees, by which the root belongs to the root
and the children of an entry belong to the children of its counterpart. -/
structure Counterparts (old new : Entry) (f : Entry → Entry) : Prop where
  bijOn : Set.BijOn f {e | e ∈ old.preorder} {e | e ∈ new.preorder}
  root : f old = new
  children : ∀ p ∈ old.preorder, ∀ c ∈ p.children, f c ∈ (f p).children

namespace Counterparts

variable {old new e p c d : Entry} {f : Entry → Entry}

lemma mem (h : Counterparts old new f) (he : e ∈ old.preorder) : f e ∈ new.preorder :=
  h.bijOn.mapsTo he

lemma exists_eq (h : Counterparts old new f) (he : e ∈ new.preorder) :
    ∃ o ∈ old.preorder, f o = e := h.bijOn.surjOn he

/-- The children of a counterpart are the counterparts of the children. -/
lemma mem_children_iff (h : Counterparts old new f) (hnew : new.WellPlaced)
    (hp : p ∈ old.preorder) : d ∈ (f p).children ↔ ∃ c ∈ p.children, f c = d := by
  constructor
  · intro hd
    obtain ⟨c, hc, rfl⟩ := h.exists_eq (child_mem_preorder (h.mem hp) hd)
    exact ⟨c, mem_children_of_stays h.bijOn.mapsTo h.bijOn.injOn hnew h.root hp hc
      (fun q hq => h.children q hq c) hd, rfl⟩
  · rintro ⟨c, hc, rfl⟩
    exact h.children p hp c hc

/-- Counterparts can be checked by their numbers. -/
lemma of_seq (hnew : new.WellPlaced)
    (hmem : ∀ e ∈ old.preorder, f e ∈ new.preorder)
    (hperm : (old.preorder.map fun e => (f e).seq).Perm (new.preorder.map seq))
    (hroot : (f old).seq = new.seq) (hnone : new.parent = none)
    (hparent : ∀ p ∈ old.preorder, ∀ c ∈ p.children, (f c).parent = some (f p).seq) :
    Counterparts old new f := by
  refine ⟨bijOn_of_seq hmem hnew.distinct hperm, ?_, ?_⟩
  · exact hnew.eq_of_seq (hmem old (mem_preorder_self old)) (mem_preorder_self new) hroot
  · intro p hp c hc
    exact mem_children_of_parent hnew hnone (hmem p hp) (hmem c (child_mem_preorder hp hc))
      (hparent p hp c hc)

end Counterparts

end Entry

end TreeDiff
