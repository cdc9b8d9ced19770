/-
# Links as a pairing

What can be read off a list of links: which entries are free, which are joined with which, and what
happens to this when links are added or when old and new change sides.
-/
import Mathlib.Data.List.Pairwise
import Mathlib.Tactic.ByContra
import Mathlib.Tactic.Lemma
import TreeDiff.Diff.Links

namespace TreeDiff

namespace Link

/-- The link seen from the other side. -/
def swap (l : Link) : Link := ⟨l.new, l.old, l.kind⟩

@[simp] lemma swap_swap (l : Link) : l.swap.swap = l := rfl

@[simp] lemma swap_old (l : Link) : l.swap.old = l.new := rfl

@[simp] lemma swap_new (l : Link) : l.swap.new = l.old := rfl

@[simp] lemma swap_kind (l : Link) : l.swap.kind = l.kind := rfl

lemma eq_swap_iff {l m : Link} : l = m.swap ↔ l.swap = m := by
  constructor
  · rintro rfl
    rfl
  · rintro rfl
    rfl

/-- Two links without a common entry. -/
def Apart (l m : Link) : Prop := l.old.seq ≠ m.old.seq ∧ l.new.seq ≠ m.new.seq

instance : Std.Symm Apart := ⟨fun _ _ h => ⟨h.1.symm, h.2.symm⟩⟩

end Link

namespace Links

variable {links more : Links} {e : Entry} {l : Link}

/-- Links without a common entry, so that an entry is never joined twice. -/
def OneToOne (links : Links) : Prop := links.Pairwise Link.Apart

/-- Whether the old entry and the new entry of two numbers are joined with each other. -/
def Joins (links : Links) (old new : Nat) : Prop :=
  ∃ l ∈ links, l.old.seq = old ∧ l.new.seq = new

/-- Whether the parents of the entries of a link are joined with each other. -/
def JoinsParents (links : Links) (l : Link) : Prop :=
  ∃ p q, l.old.parent = some p ∧ l.new.parent = some q ∧ links.Joins p q

/-- The links seen from the other side. -/
def swap (links : Links) : Links := links.map Link.swap

lemma mem_swap : l ∈ links.swap ↔ l.swap ∈ links := by
  rw [swap, List.mem_map]
  constructor
  · rintro ⟨m, hm, rfl⟩
    exact hm
  · intro h
    exact ⟨l.swap, h, rfl⟩

@[simp] lemma swap_swap (links : Links) : links.swap.swap = links := by
  rw [swap, swap, List.map_map]
  exact List.map_id links

/-! ## Free entries -/

lemma freeOld_iff : links.freeOld e = true ↔ ∀ l ∈ links, l.old.seq ≠ e.seq := by
  simp [freeOld, ofOld?]

lemma freeNew_iff : links.freeNew e = true ↔ ∀ l ∈ links, l.new.seq ≠ e.seq := by
  simp [freeNew, ofNew?]

lemma freeOld_of_mem (hl : l ∈ links) : links.freeOld l.old = false :=
  Bool.eq_false_iff.2 fun hfree => freeOld_iff.1 hfree l hl rfl

lemma freeOld_of_subset (hsub : links ⊆ more) (h : more.freeOld e = true) :
    links.freeOld e = true :=
  freeOld_iff.2 fun l hl => freeOld_iff.1 h l (hsub hl)

lemma freeNew_of_subset (hsub : links ⊆ more) (h : more.freeNew e = true) :
    links.freeNew e = true :=
  freeNew_iff.2 fun l hl => freeNew_iff.1 h l (hsub hl)

lemma freeOld_congr (h : ∀ l, l ∈ links ↔ l ∈ more) : links.freeOld e = more.freeOld e := by
  rw [Bool.eq_iff_iff, freeOld_iff, freeOld_iff]
  exact forall_congr' fun l => by rw [h l]

lemma freeNew_congr (h : ∀ l, l ∈ links ↔ l ∈ more) : links.freeNew e = more.freeNew e := by
  rw [Bool.eq_iff_iff, freeNew_iff, freeNew_iff]
  exact forall_congr' fun l => by rw [h l]

@[simp] lemma freeOld_swap : links.swap.freeOld e = links.freeNew e := by
  rw [Bool.eq_iff_iff, freeOld_iff, freeNew_iff, swap, List.forall_mem_map]
  rfl

@[simp] lemma freeNew_swap : links.swap.freeNew e = links.freeOld e := by
  rw [Bool.eq_iff_iff, freeOld_iff, freeNew_iff, swap, List.forall_mem_map]
  rfl

/-! ## The links of a comparison the other way round -/

/-- Whether one list has the links of another one seen from the other side, in any order. -/
def MirrorOf (back links : Links) : Prop := ∀ l, l ∈ back ↔ l ∈ links.swap

namespace MirrorOf

variable {back : Links}

lemma symm (h : back.MirrorOf links) : links.MirrorOf back := fun l => by
  rw [mem_swap, h, mem_swap, Link.swap_swap]

lemma cons (h : back.MirrorOf links) (l : Link) : Links.MirrorOf (l.swap :: back) (l :: links) := by
  intro m
  rw [mem_swap, List.mem_cons, List.mem_cons, h, mem_swap, Link.eq_swap_iff]

lemma freeOld_eq (h : back.MirrorOf links) : back.freeOld e = links.freeNew e := by
  rw [freeOld_congr h, freeOld_swap]

lemma freeNew_eq (h : back.MirrorOf links) : back.freeNew e = links.freeOld e := by
  rw [freeNew_congr h, freeNew_swap]

end MirrorOf

/-! ## Adding links -/

lemma joinAll_eq (links : Links) (more : List Link) :
    links.joinAll more = more.reverse ++ links := by
  rw [joinAll]
  induction more generalizing links with
  | nil => rfl
  | cons l rest ih => rw [List.foldl_cons, ih, List.reverse_cons, List.append_assoc,
      List.singleton_append]

lemma mem_joinAll {more : List Link} : l ∈ links.joinAll more ↔ l ∈ more ∨ l ∈ links := by
  rw [joinAll_eq, List.mem_append, List.mem_reverse]

/-! ## The link of an entry -/

lemma ofOld?_swap : links.swap.ofOld? e = (links.ofNew? e).map Link.swap := by
  rw [ofOld?, swap, List.find?_map]
  rfl

lemma mem_of_ofOld? (h : links.ofOld? e = some l) : l ∈ links := List.mem_of_find?_eq_some h

namespace OneToOne

lemma swap (h : links.OneToOne) : links.swap.OneToOne :=
  List.pairwise_map.2 (h.imp fun hlm => ⟨hlm.2, hlm.1⟩)

lemma eq_of_old (h : links.OneToOne) {m : Link} (hl : l ∈ links) (hm : m ∈ links)
    (hlm : l.old.seq = m.old.seq) : l = m := by
  by_contra hne
  exact (h.forall hl hm hne).1 hlm

lemma eq_of_new (h : links.OneToOne) {m : Link} (hl : l ∈ links) (hm : m ∈ links)
    (hlm : l.new.seq = m.new.seq) : l = m := by
  by_contra hne
  exact (h.forall hl hm hne).2 hlm

lemma ofOld?_eq_some_iff (h : links.OneToOne) :
    links.ofOld? e = some l ↔ l ∈ links ∧ l.old.seq = e.seq := by
  constructor
  · intro hfind
    exact ⟨mem_of_ofOld? hfind, by simpa using List.find?_some hfind⟩
  · rintro ⟨hl, hseq⟩
    cases hfind : links.ofOld? e with
    | none =>
      have hfree : links.freeOld e = true := by rw [freeOld, hfind]; rfl
      exact absurd hseq (freeOld_iff.1 hfree l hl)
    | some m =>
      have hm : m.old.seq = e.seq := by simpa using List.find?_some hfind
      rw [h.eq_of_old (mem_of_ofOld? hfind) hl (hm.trans hseq.symm)]

lemma ofNew?_eq_some_iff (h : links.OneToOne) :
    links.ofNew? e = some l ↔ l ∈ links ∧ l.new.seq = e.seq := by
  have hswap := h.swap.ofOld?_eq_some_iff (e := e) (l := l.swap)
  rw [ofOld?_swap, Option.map_eq_some_iff, mem_swap, Link.swap_swap, Link.swap_old] at hswap
  rw [← hswap]
  constructor
  · intro hfind
    exact ⟨l, hfind, rfl⟩
  · rintro ⟨m, hfind, hm⟩
    rwa [← Link.swap_swap l, ← hm, Link.swap_swap]

end OneToOne

end Links

end TreeDiff
