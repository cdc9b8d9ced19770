/-
# Similarity is symmetric

Two different texts are put in order before they are compared, so it does not matter which of them
is given first.
-/
import Mathlib.Tactic.Lemma
import TreeDiff.Text.Similarity

namespace TreeDiff.Text

lemma charsBefore_cons {c d : Char} {cs ds : List Char} :
    charsBefore (c :: cs) (d :: ds) = true ↔
      c.toNat < d.toNat ∨ c.toNat = d.toNat ∧ charsBefore cs ds = true := by
  simp [charsBefore]

/-- Of two different sequences exactly one comes before the other. -/
lemma charsBefore_eq_not {cs ds : List Char} (hne : cs ≠ ds) :
    charsBefore cs ds = !charsBefore ds cs := by
  induction cs generalizing ds with
  | nil =>
    cases ds with
    | nil => exact absurd rfl hne
    | cons d ds => rfl
  | cons c cs ih =>
    cases ds with
    | nil => rfl
    | cons d ds =>
      rw [Bool.eq_iff_iff, Bool.not_eq_true', ← Bool.not_eq_true, charsBefore_cons,
        charsBefore_cons]
      by_cases hcd : c = d
      · subst hcd
        have htail := ih fun h => hne (h ▸ rfl)
        simp [htail]
      · have hnat : c.toNat ≠ d.toNat := fun h => hcd (Char.toNat_inj.1 h)
        omega

lemma before_eq_not {a b : String} (hne : a ≠ b) : before a b = !before b a :=
  charsBefore_eq_not fun h => hne (String.toList_inj.1 h)

/-- **Similarity does not depend on the order of the texts.** -/
theorem similarity_comm (passes : Ratio → Bool) (a b : String) :
    similarity passes a b = similarity passes b a := by
  by_cases hab : a = b
  · rw [hab]
  · have hswap := before_eq_not hab
    simp only [similarity, if_neg hab, if_neg (Ne.symm hab), Bool.or_comm b.isEmpty, hswap]
    cases before b a <;> rfl

end TreeDiff.Text
