/-
# The order in which changes are reported

Changes are sorted by their breadcrumbs, compared by code points, then by their kinds, and then by
where the nodes start.  The sort is stable, so changes that agree in all of this stay in the order
in which they were found.
-/
import Mathlib.Data.List.Nodup
import Mathlib.Data.Prod.Lex
import Mathlib.Tactic.Lemma
import TreeDiff.Diff.Change
import TreeDiff.Proofs.TextOrder

namespace TreeDiff

/-! ## Ranks -/

/-- Kinds of changes are told apart by their priorities. -/
lemma ChangeKind.priority_inj {a b : ChangeKind} : a.priority = b.priority ↔ a = b := by
  cases a <;> cases b <;> simp [priority]

namespace Change

/-- What the order of changes depends on, the most important part first. -/
def rank (c : Change) : String ×ₗ ℕ ×ₗ ℤ ×ₗ ℤ :=
  toLex (c.path, toLex (c.kind.priority, toLex (c.start.row, c.start.column)))

/-- Changes of the same rank are of the same kind. -/
lemma kind_eq_of_rank_eq {a b : Change} (h : a.rank = b.rank) : a.kind = b.kind := by
  simp only [rank, toLex_inj, Prod.mk.injEq] at h
  exact ChangeKind.priority_inj.1 h.2.1

/-- **Changes are sorted by their ranks.** -/
theorem notAfter_iff {a b : Change} : a.notAfter b = true ↔ a.rank ≤ b.rank := by
  simp only [notAfter, rank, Prod.Lex.toLex_le_toLex]
  by_cases hpath : a.path = b.path
  · by_cases hkind : a.kind.priority = b.kind.priority
    · by_cases hrow : a.start.row = b.start.row
      · simp [hpath, hkind, hrow]
      · simp [hpath, hkind, hrow]
    · simp [hpath, hkind]
  · simp [hpath, Text.before_iff]

end Change

/-! ## Stable sorting -/

section

variable {α : Type} {le : α → α → Bool} {items : List α}

/-- Two items of a list without repetitions stand in one order only. -/
lemma not_pair_sublist_swap {a b : α} (hnodup : items.Nodup) (hab : [a, b].Sublist items) :
    ¬[b, a].Sublist items := by
  intro hba
  induction items with
  | nil => simp at hab
  | cons c rest ih =>
    rw [List.nodup_cons] at hnodup
    cases hab with
    | cons _ hab =>
      cases hba with
      | cons _ hba => exact ih hnodup.2 hab hba
      | cons_cons _ hba =>
        exact hnodup.1 (hab.subset (by simp))
    | cons_cons _ hab =>
      cases hba with
      | cons _ hba => exact hnodup.1 (hba.subset (by simp))
      | cons_cons _ hba => exact hnodup.1 (hab.subset (by simp))

lemma pair_sublist_or {a b : α} (ha : a ∈ items) (hb : b ∈ items) (hne : a ≠ b) :
    [a, b].Sublist items ∨ [b, a].Sublist items := by
  induction items with
  | nil => simp at ha
  | cons c rest ih =>
    rcases List.mem_cons.1 ha with rfl | ha'
    · have hb' : b ∈ rest := (List.mem_cons.1 hb).resolve_left (Ne.symm hne)
      exact Or.inl ((List.singleton_sublist.2 hb').cons_cons a)
    · rcases List.mem_cons.1 hb with rfl | hb'
      · exact Or.inr ((List.singleton_sublist.2 ha').cons_cons b)
      · exact (ih ha' hb').imp (List.Sublist.cons c) (List.Sublist.cons c)

/-- **A stable sort keeps the order of what it does not tell apart.**  If the items stood in an
order, then of two items in the sorted list the first one is smaller, or else it stood first. -/
theorem pairwise_mergeSort_stable {R : α → α → Prop}
    (htrans : ∀ a b c, le a b = true → le b c = true → le a c = true)
    (htotal : ∀ a b, (le a b || le b a) = true) (hnodup : items.Nodup) (h : items.Pairwise R) :
    (items.mergeSort le).Pairwise fun a b => le a b = true ∧ (le b a = true → R a b) := by
  have hperm := List.mergeSort_perm items le
  have hsorted := List.pairwise_mergeSort htrans htotal items
  rw [List.pairwise_iff_forall_sublist] at hsorted h ⊢
  intro a b hab
  refine ⟨hsorted hab, fun hba => ?_⟩
  have hnodup' : (items.mergeSort le).Nodup := hperm.nodup_iff.2 hnodup
  have hne : a ≠ b := by
    rintro rfl
    exact not_pair_sublist_swap hnodup' hab hab
  have ha : a ∈ items := hperm.subset (hab.subset (by simp))
  have hb : b ∈ items := hperm.subset (hab.subset (by simp))
  -- had the second one stood first, the sort would not have moved it behind the other
  rcases pair_sublist_or ha hb hne with hsub | hsub
  · exact h hsub
  · exact absurd (List.pair_sublist_mergeSort htrans htotal hba hsub)
      (not_pair_sublist_swap hnodup' hab)

end

end TreeDiff
