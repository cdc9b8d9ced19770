/-
# Rounding keeps the order

A quotient is rounded to the nearest number that has few enough binary places.  The greater of two
quotients is never rounded to the smaller number: a quotient is rounded to at most `k` exactly if it
lies below the middle of `k` and `k + 1`, or at the middle if `k` is even; and where more places are
dropped, the rounded number is at least the power of two up to which fewer places are dropped.
-/
import Mathlib.Data.Nat.Log
import Mathlib.Tactic.Lemma
import Mathlib.Tactic.Linarith
import Mathlib.Tactic.Ring
import TreeDiff.Number.Binary64

namespace TreeDiff.Binary64

variable {num den num' den' : Nat}

/-! ## Whole numbers -/

/-- A quotient is rounded to at most `k` up to the middle of `k` and `k + 1`. -/
lemma roundDiv_le_iff (hden : 0 < den) {k : Nat} : roundDiv num den ≤ k ↔
    2 * num < (2 * k + 1) * den ∨ 2 * num = (2 * k + 1) * den ∧ k % 2 = 0 := by
  have hdiv := Nat.div_add_mod num den
  have hmod := Nat.mod_lt num hden
  rw [roundDiv]
  generalize num / den = low at *
  generalize num % den = rest at *
  subst hdiv
  rcases Nat.lt_trichotomy k low with hk | rfl | hk
  · -- the quotient is at least `k + 1`
    have hmul : (2 * k + 2) * den ≤ 2 * low * den := Nat.mul_le_mul_right den (by omega)
    have hexp : (2 * k + 2) * den = (2 * k + 1) * den + den := by ring
    have hcomm : 2 * low * den = 2 * (den * low) := by ring
    refine iff_of_false ?_ ?_
    · split_ifs <;> omega
    · omega
  · have hexp : (2 * k + 1) * den = 2 * (den * k) + den := by ring
    rw [hexp]
    split_ifs <;> omega
  · have hmul : (2 * low + 3) * den ≤ (2 * k + 1) * den := Nat.mul_le_mul_right den (by omega)
    have hexp : (2 * low + 3) * den = 2 * (den * low) + 3 * den := by ring
    refine iff_of_true ?_ (Or.inl ?_)
    · split_ifs <;> omega
    · omega

/-- The greater quotient is rounded to the greater whole number. -/
lemma roundDiv_mono (hden : 0 < den) (hden' : 0 < den') (h : num * den' ≤ num' * den) :
    roundDiv num den ≤ roundDiv num' den' := by
  rw [roundDiv_le_iff hden]
  -- compare both quotients with the middle above the greater rounded number
  rcases (roundDiv_le_iff hden').1 (Nat.le_refl (roundDiv num' den')) with hlt | ⟨heq, heven⟩
  · refine Or.inl (Nat.lt_of_mul_lt_mul_right (a := den') ?_)
    calc 2 * num * den' = 2 * (num * den') := by ring
      _ ≤ 2 * num' * den := by linarith
      _ < (2 * roundDiv num' den' + 1) * den' * den := Nat.mul_lt_mul_of_pos_right hlt hden
      _ = (2 * roundDiv num' den' + 1) * den * den' := by ring
  · have hle : 2 * num ≤ (2 * roundDiv num' den' + 1) * den := by
      refine Nat.le_of_mul_le_mul_right (c := den') ?_ hden'
      calc 2 * num * den' = 2 * (num * den') := by ring
        _ ≤ 2 * num' * den := by linarith
        _ = (2 * roundDiv num' den' + 1) * den' * den := by rw [heq]
        _ = (2 * roundDiv num' den' + 1) * den * den' := by ring
    exact (Nat.lt_or_eq_of_le hle).imp id fun heq => ⟨heq, heven⟩

/-- A whole number is not rounded. -/
lemma le_roundDiv {k : Nat} (hden : 0 < den) (h : k * den ≤ num) : k ≤ roundDiv num den := by
  rw [← Nat.not_lt]
  cases k with
  | zero => exact Nat.not_lt_zero _
  | succ k =>
    rw [Nat.lt_succ_iff, roundDiv_le_iff hden]
    have hexp : (2 * k + 1) * den + den = 2 * ((k + 1) * den) := by ring
    omega

lemma roundDiv_le {k : Nat} (hden : 0 < den) (h : num ≤ k * den) : roundDiv num den ≤ k := by
  rw [roundDiv_le_iff hden]
  have hexp : (2 * k + 1) * den = 2 * (k * den) + den := by ring
  omega

/-! ## Places -/

/-- How many units there are, by how many places are dropped. -/
lemma lt_two_pow_excess (units : Nat) : units < 2 ^ (53 + excess units) := by
  have hlog := Nat.lt_log2_self (n := units)
  have hle : units.log2 + 1 ≤ 53 + excess units := by
    rw [excess]
    omega
  exact Nat.lt_of_lt_of_le hlog (Nat.pow_le_pow_right (by omega) hle)

lemma two_pow_excess_le {units : Nat} (h : excess units ≠ 0) : 2 ^ (52 + excess units) ≤ units := by
  have hne : units ≠ 0 := by
    rintro rfl
    exact h rfl
  have hlog : units.log2 = 52 + excess units := by
    rw [excess] at h ⊢
    omega
  rw [← hlog]
  exact Nat.log2_self_le hne

lemma excess_mono {m n : Nat} (h : m ≤ n) : excess m ≤ excess n := by
  have hlog : m.log2 ≤ n.log2 := by
    rw [Nat.log2_eq_log_two, Nat.log2_eq_log_two]
    exact Nat.log_mono_right h
  rw [excess, excess]
  omega

/-- **The greater quotient is rounded to the greater number.** -/
theorem nearestUnits_mono (hden : 0 < den) (hden' : 0 < den') (h : num * den' ≤ num' * den) :
    nearestUnits num den ≤ nearestUnits num' den' := by
  have hquot : num / den ≤ num' / den' := by
    rw [Nat.le_div_iff_mul_le hden']
    refine Nat.le_of_mul_le_mul_right (c := den) ?_ hden
    calc num / den * den' * den = num / den * den * den' := by ring
      _ ≤ num * den' := Nat.mul_le_mul_right den' (Nat.div_mul_le_self num den)
      _ ≤ num' * den := h
  have hplaces := excess_mono hquot
  rw [nearestUnits, nearestUnits]
  generalize hp : excess (num / den) = places at *
  generalize hp' : excess (num' / den') = places' at *
  have hpos : 0 < 2 ^ places := Nat.two_pow_pos places
  have hpos' : 0 < 2 ^ places' := Nat.two_pow_pos places'
  show roundDiv num (den * 2 ^ places) * 2 ^ places ≤
    roundDiv num' (den' * 2 ^ places') * 2 ^ places'
  rcases Nat.lt_or_eq_of_le hplaces with hlt | rfl
  · -- the power of two at which more places are dropped lies between the two numbers
    have hlow : num ≤ 2 ^ 53 * (den * 2 ^ places) := by
      have hq := lt_two_pow_excess (num / den)
      rw [hp, Nat.div_lt_iff_lt_mul hden, Nat.pow_add] at hq
      calc num ≤ 2 ^ 53 * 2 ^ places * den := hq.le
        _ = 2 ^ 53 * (den * 2 ^ places) := by ring
    have hhigh : 2 ^ 52 * (den' * 2 ^ places') ≤ num' := by
      have hq : 2 ^ (52 + excess (num' / den')) ≤ num' / den' := two_pow_excess_le (by omega)
      rw [hp', Nat.le_div_iff_mul_le hden', Nat.pow_add] at hq
      calc 2 ^ 52 * (den' * 2 ^ places') = 2 ^ 52 * 2 ^ places' * den' := by ring
        _ ≤ num' := hq
    calc roundDiv num (den * 2 ^ places) * 2 ^ places ≤ 2 ^ 53 * 2 ^ places :=
          Nat.mul_le_mul_right _ (roundDiv_le (Nat.mul_pos hden hpos) hlow)
      _ = 2 ^ 52 * 2 ^ (places + 1) := by ring
      _ ≤ 2 ^ 52 * 2 ^ places' := Nat.mul_le_mul_left _ (Nat.pow_le_pow_right (by omega) hlt)
      _ ≤ roundDiv num' (den' * 2 ^ places') * 2 ^ places' :=
          Nat.mul_le_mul_right _ (le_roundDiv (Nat.mul_pos hden' hpos') hhigh)
  · refine Nat.mul_le_mul_right _
      (roundDiv_mono (Nat.mul_pos hden hpos) (Nat.mul_pos hden' hpos) ?_)
    calc num * (den' * 2 ^ places) = num * den' * 2 ^ places := by ring
      _ ≤ num' * den * 2 ^ places := Nat.mul_le_mul_right _ h
      _ = num' * (den * 2 ^ places) := by ring

/-! ## Comparisons -/

lemma signedUnits?_ofUnits (num den : Nat) :
    (ofUnits false num den).signedUnits? = some (min (nearestUnits num den) unitsBound : Nat) := by
  rw [ofUnits]
  split_ifs with h
  · rw [Nat.min_eq_left h.le]
    rfl
  · rw [Nat.min_eq_right (Nat.le_of_not_lt h)]
    rfl

lemma le_iff {a b : Binary64} : a.le b = true ↔
    ∃ x y, a.signedUnits? = some x ∧ b.signedUnits? = some y ∧ x ≤ y := by
  rw [le]
  cases a.signedUnits? <;> cases b.signedUnits? <;> simp

lemma le_trans {a b c : Binary64} (hab : a.le b = true) (hbc : b.le c = true) : a.le c = true := by
  rw [le_iff] at hab hbc ⊢
  obtain ⟨x, y, hx, hy, hxy⟩ := hab
  obtain ⟨y', z, hy', hz, hyz⟩ := hbc
  obtain rfl := Option.some.inj (hy.symm.trans hy')
  exact ⟨x, z, hx, hz, Int.le_trans hxy hyz⟩

/-- **Of two quotients the greater one is not the smaller number.** -/
theorem ofRatio_le_ofRatio (hden : 0 < den) (hden' : 0 < den') (h : num * den' ≤ num' * den) :
    (ofRatio false num den).le (ofRatio false num' den') = true := by
  have hunits : nearestUnits (num * unitsPerOne) den ≤ nearestUnits (num' * unitsPerOne) den' :=
    nearestUnits_mono hden hden' <| by
      calc num * unitsPerOne * den' = num * den' * unitsPerOne := by ring
        _ ≤ num' * den * unitsPerOne := Nat.mul_le_mul_right _ h
        _ = num' * unitsPerOne * den := by ring
  refine le_iff.2 ⟨_, _, signedUnits?_ofUnits _ _, signedUnits?_ofUnits _ _, ?_⟩
  exact_mod_cast min_le_min_right unitsBound hunits

end TreeDiff.Binary64
