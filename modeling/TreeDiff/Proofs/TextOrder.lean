/-
# The order of texts is that of their code points

The comparison of texts is the linear order of strings, so what is known of linear orders holds of
it.  Sorting by it puts texts that are all different in strictly growing order.
-/
import Mathlib.Data.String.Basic
import Mathlib.Tactic.Lemma
import TreeDiff.Text.Order

namespace TreeDiff.Text

lemma charsBefore_iff {cs ds : List Char} : charsBefore cs ds = true ↔ cs < ds := by
  induction cs generalizing ds with
  | nil => cases ds <;> simp [charsBefore]
  | cons c cs ih =>
    cases ds with
    | nil => simp [charsBefore]
    | cons d ds =>
      have hlt : c.toNat < d.toNat ↔ c < d := Iff.rfl
      simp only [charsBefore, Bool.or_eq_true, Bool.and_eq_true, decide_eq_true_eq, beq_iff_eq,
        ih, List.cons_lt_cons_iff, hlt, Char.toNat_inj]

/-- Texts are compared by code points. -/
lemma before_iff {a b : String} : before a b = true ↔ a < b := by
  rw [before, charsBefore_iff, String.lt_iff_toList_lt]

lemma notAfter_iff {a b : String} : notAfter a b = true ↔ a ≤ b := by
  rw [notAfter, Bool.not_eq_true', ← Bool.not_eq_true, before_iff, not_lt]

lemma perm_sorted (texts : List String) : (sorted texts).Perm texts := List.mergeSort_perm _ _

/-- Texts that are all different are put in strictly growing order. -/
lemma pairwise_sorted {texts : List String} (h : texts.Nodup) :
    (sorted texts).Pairwise (· < ·) := by
  have htrans : ∀ a b c, notAfter a b = true → notAfter b c = true → notAfter a c = true :=
    fun a b c hab hbc => notAfter_iff.2 ((notAfter_iff.1 hab).trans (notAfter_iff.1 hbc))
  have htotal : ∀ a b, (notAfter a b || notAfter b a) = true := fun a b => by
    rw [Bool.or_eq_true, notAfter_iff, notAfter_iff]
    exact le_total a b
  have hnodup : (sorted texts).Nodup := (perm_sorted texts).nodup_iff.2 h
  exact ((List.pairwise_mergeSort htrans htotal texts).and hnodup).imp fun hab =>
    lt_of_le_of_ne (notAfter_iff.1 hab.1) hab.2

end TreeDiff.Text
