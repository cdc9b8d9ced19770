/-
# What a cutoff hides

A comparison of two texts may stop early when an upper bound of their similarity does not pass a
cutoff.  The bounds are the similarity that the texts would have if as many characters were matched
as the shorter one has, or as the two have in common.  Since no more characters are matched than are
shared, and no more are shared than the shorter text has, a similarity that passes is never hidden.
It makes no difference whether the cutoff compares exact quotients or rounded numbers.
-/
import Mathlib.Algebra.Order.Field.Rat
import Mathlib.Data.Rat.Cast.Order
import TreeDiff.Diff.Pairing
import TreeDiff.Proofs.CommonBlocks
import TreeDiff.Proofs.Rounding

namespace TreeDiff

namespace Text

/-! ## Cutoffs -/

namespace Ratio

/-- Whether one quotient is at most another. -/
def AtMost (r s : Ratio) : Prop := r.num * s.den ≤ s.num * r.den

/-- The quotient as a rational number. -/
def value (r : Ratio) : ℚ := r.num / r.den

lemma zero_atMost (r : Ratio) : zero.AtMost r := by simp [AtMost, zero]

lemma value_zero : zero.value = 0 := by simp [value, zero]

lemma value_le_of_atMost {r s : Ratio} (hr : 0 < r.den) (hs : 0 < s.den) (h : r.AtMost s) :
    r.value ≤ s.value := by
  rw [value, value, div_le_div_iff₀ (by exact_mod_cast hr) (by exact_mod_cast hs)]
  exact_mod_cast h

end Ratio

lemma share_atMost_share {m n : Nat} (h : m ≤ n) (left right : List Char) :
    (share m left right).AtMost (share n left right) :=
  Nat.mul_le_mul_right _ (Nat.mul_le_mul_left 2 h)

/-- Whether a cutoff that lets a quotient pass lets all greater quotients pass. -/
def IsUpward (passes : Ratio → Bool) : Prop :=
  ∀ r s : Ratio, 0 < r.den → 0 < s.den → r.AtMost s → passes r = true → passes s = true

/-- The cutoff that compares exact quotients. -/
def atLeast (threshold : ℚ) (r : Ratio) : Bool := decide (threshold ≤ r.value)

lemma isUpward_atLeast (threshold : ℚ) : IsUpward (atLeast threshold) := by
  intro r s hr hs hrs hpasses
  rw [atLeast, decide_eq_true_eq] at hpasses ⊢
  exact hpasses.trans (Ratio.value_le_of_atMost hr hs hrs)

lemma isUpward_reaches (threshold : Binary64) : IsUpward (reaches threshold) := by
  intro r s hr hs hrs hpasses
  exact Binary64.le_trans hpasses (Binary64.ofRatio_le_ofRatio hr hs hrs)

/-! ## Early answers -/

/-- The similarity of two texts with nothing hidden. -/
def fullSimilarity (a b : String) : Ratio := similarity (fun _ => true) a b

/-- Whether two sequences are the characters of two texts, in one order or the other. -/
def AreCharsOf (a b : String) (left right : List Char) : Prop :=
  left = a.toList ∧ right = b.toList ∨ left = b.toList ∧ right = a.toList

/-- The ways in which two texts are compared: they are equal, or one is empty, or they are put in
order. -/
lemma similarity_cases (a b : String) : (a = b ∧ ∀ passes, similarity passes a b = .one) ∨
    ((a = "" ∨ b = "") ∧ ∀ passes, similarity passes a b = .zero) ∨
    ∃ left right : List Char, AreCharsOf a b left right ∧ 0 < left.length + right.length ∧
      ∀ passes, similarity passes a b = orderedSimilarity passes left right := by
  by_cases hab : a = b
  · exact Or.inl ⟨hab, fun passes => by rw [similarity, if_pos hab]⟩
  · cases hempty : a.isEmpty || b.isEmpty with
    | true =>
      have hnil : a = "" ∨ b = "" := by simpa using hempty
      exact Or.inr (Or.inl ⟨hnil, fun passes => by rw [similarity, if_neg hab, if_pos hempty]⟩)
    | false =>
      have hlength : 0 < a.toList.length := by
        have ha := (Bool.or_eq_false_iff.1 hempty).1
        rw [String.isEmpty_eq_false_iff, Ne, ← String.toList_eq_nil_iff] at ha
        exact List.length_pos_iff.2 ha
      cases hbefore : before b a with
      | true =>
        exact Or.inr (Or.inr ⟨b.toList, a.toList, Or.inr ⟨rfl, rfl⟩, by omega, fun passes => by
          simp [similarity, hab, hempty, hbefore]⟩)
      | false =>
        exact Or.inr (Or.inr ⟨a.toList, b.toList, Or.inl ⟨rfl, rfl⟩, by omega, fun passes => by
          simp [similarity, hab, hempty, hbefore]⟩)

lemma fullSimilarity_den_pos (a b : String) : 0 < (fullSimilarity a b).den := by
  rcases similarity_cases a b with ⟨-, h⟩ | ⟨-, h⟩ | ⟨left, right, -, hlength, h⟩
  · rw [fullSimilarity, h]
    exact Nat.one_pos
  · rw [fullSimilarity, h]
    exact Nat.one_pos
  · rw [fullSimilarity, h]
    exact hlength

/-- The similarity of different texts is the share of their characters that lies in blocks. -/
lemma value_fullSimilarity {a b : String} (hab : a ≠ b) :
    ∃ left right, AreCharsOf a b left right ∧ (fullSimilarity a b).value =
      2 * matchedCount left right / (a.toList.length + b.toList.length) := by
  rcases similarity_cases a b with ⟨heq, -⟩ | ⟨hempty, h⟩ | ⟨left, right, hchars, -, h⟩
  · exact absurd heq hab
  · refine ⟨a.toList, b.toList, Or.inl ⟨rfl, rfl⟩, ?_⟩
    have hle := Nat.le_trans (matchedCount_le_sharedCount a.toList b.toList)
      (sharedCount_le_min a.toList b.toList)
    have hnone : matchedCount a.toList b.toList = 0 := by
      rcases hempty with rfl | rfl <;> simpa using hle
    rw [fullSimilarity, h, hnone, Ratio.value_zero]
    simp
  · refine ⟨left, right, hchars, ?_⟩
    rw [fullSimilarity, h]
    rcases hchars with ⟨rfl, rfl⟩ | ⟨rfl, rfl⟩
    · simp [orderedSimilarity, share, Ratio.value]
    · simp [orderedSimilarity, share, Ratio.value, add_comm]

section

variable {passes : Ratio → Bool} {left right : List Char} {a b : String}

/-- A comparison stops early only if the similarity does not pass. -/
lemma orderedSimilarity_eq_or (hup : IsUpward passes) (hlength : 0 < left.length + right.length) :
    orderedSimilarity passes left right = share (matchedCount left right) left right ∨
      orderedSimilarity passes left right = .zero ∧
        passes (share (matchedCount left right) left right) = false := by
  have hshared := matchedCount_le_sharedCount left right
  have hshorter := Nat.le_trans hshared (sharedCount_le_min left right)
  -- the similarity lies below a bound that does not pass
  have hhidden : ∀ n, matchedCount left right ≤ n → passes (share n left right) = false →
      passes (share (matchedCount left right) left right) = false := by
    intro n hn hbound
    rw [← Bool.not_eq_true] at hbound ⊢
    exact fun hpasses => hbound (hup _ _ hlength hlength (share_atMost_share hn left right) hpasses)
  rw [orderedSimilarity]
  cases hmin : passes (share (min left.length right.length) left right) with
  | false => exact Or.inr ⟨rfl, hhidden _ hshorter hmin⟩
  | true =>
    cases hcount : passes (share (sharedCount left right) left right) with
    | false => exact Or.inr ⟨rfl, hhidden _ hshared hcount⟩
    | true => exact Or.inl rfl

/-- **A similarity is given in full, or as zero if it does not pass.** -/
theorem similarity_eq_or (hup : IsUpward passes) (a b : String) :
    similarity passes a b = fullSimilarity a b ∨
      similarity passes a b = .zero ∧ passes (fullSimilarity a b) = false := by
  rcases similarity_cases a b with ⟨-, h⟩ | ⟨-, h⟩ | ⟨left, right, -, hlength, h⟩
  · exact Or.inl (by rw [fullSimilarity, h, h])
  · exact Or.inl (by rw [fullSimilarity, h, h])
  · rw [fullSimilarity, h, h]
    exact orderedSimilarity_eq_or hup hlength

/-- A cutoff that zero passes hides nothing. -/
lemma similarity_eq_of_passes_zero (hup : IsUpward passes) (hzero : passes .zero = true)
    (a b : String) : similarity passes a b = fullSimilarity a b := by
  refine (similarity_eq_or hup a b).resolve_right ?_
  rintro ⟨-, hfalse⟩
  have hpasses := hup _ _ Nat.one_pos (fullSimilarity_den_pos a b) (Ratio.zero_atMost _) hzero
  exact absurd hpasses (by simp [hfalse])

/-- What the cutoff hides does not pass as zero either. -/
lemma passes_similarity (hup : IsUpward passes) (a b : String) :
    passes (similarity passes a b) = passes (fullSimilarity a b) := by
  rcases similarity_eq_or hup a b with heq | ⟨hzero, hfalse⟩
  · rw [heq]
  · cases hpasses : passes .zero with
    | false => rw [hzero, hfalse, hpasses]
    | true => rw [similarity_eq_of_passes_zero hup hpasses]

lemma similarity_eq_of_passes (hup : IsUpward passes)
    (hpasses : passes (fullSimilarity a b) = true) :
    similarity passes a b = fullSimilarity a b := by
  refine (similarity_eq_or hup a b).resolve_right ?_
  rintro ⟨-, hfalse⟩
  exact absurd hpasses (by simp [hfalse])

end

/-- What cutoffs do to the similarity of two texts.  A cutoff at zero is none. -/
structure KeepsDecisions (a b : String) : Prop where
  /-- Different texts have as their similarity the share of their characters that lies in matched
  blocks. -/
  share (hne : a ≠ b) : ∃ left right, AreCharsOf a b left right ∧
    (similarity (atLeast 0) a b).value =
      2 * matchedCount left right / (a.toList.length + b.toList.length)
  passed (t : ℚ) (ht : t ≤ (similarity (atLeast 0) a b).value) :
    similarity (atLeast t) a b = similarity (atLeast 0) a b
  hidden (t : ℚ) (hne : similarity (atLeast t) a b ≠ similarity (atLeast 0) a b) :
    (similarity (atLeast t) a b).value = 0 ∧ (similarity (atLeast 0) a b).value < t
  /-- The same for rounded numbers. -/
  passed_rounded (t : Binary64) (ht : reaches t (similarity (reaches .zero) a b) = true) :
    similarity (reaches t) a b = similarity (reaches .zero) a b
  hidden_rounded (t : Binary64)
    (hne : similarity (reaches t) a b ≠ similarity (reaches .zero) a b) :
    similarity (reaches t) a b = .zero ∧ reaches t (similarity (reaches .zero) a b) = false
  /-- Matched blocks have no more characters than two texts share. -/
  matched_le_shared (left right : List Char) :
    matchedCount left right ≤ ((left : Multiset Char) ∩ (right : Multiset Char)).card
  card_shared (left right : List Char) :
    ((left : Multiset Char) ∩ (right : Multiset Char)).card = sharedCount left right
  /-- Two texts share no more characters than the shorter one has. -/
  shared_le_shorter (left right : List Char) :
    sharedCount left right ≤ min left.length right.length

/-- **A cutoff never changes a decision.**  A similarity that passes the cutoff is given as it is
without one, and any other may be given as zero.  This is so for exact quotients and for rounded
numbers, because the characters of matched blocks are never more than the two texts share, nor these
more than the shorter text has. -/
theorem similarity_decides (a b : String) : KeepsDecisions a b := by
  have hexact : similarity (atLeast 0) a b = fullSimilarity a b :=
    similarity_eq_of_passes_zero (isUpward_atLeast 0) (by simp [atLeast, Ratio.value_zero]) a b
  have hrounded : similarity (reaches .zero) a b = fullSimilarity a b :=
    similarity_eq_of_passes_zero (isUpward_reaches .zero) (by decide +kernel) a b
  refine ⟨fun hne => ?_, fun t ht => ?_, fun t hne => ?_, fun t ht => ?_, fun t hne => ?_,
    fun left right => ?_, fun left right => (sharedCount_eq_card left right).symm,
    sharedCount_le_min⟩
  · rw [hexact]
    exact value_fullSimilarity hne
  · rw [hexact] at ht ⊢
    exact similarity_eq_of_passes (isUpward_atLeast t) (decide_eq_true ht)
  · rw [hexact] at hne ⊢
    obtain ⟨hzero, hfalse⟩ := (similarity_eq_or (isUpward_atLeast t) a b).resolve_left hne
    rw [atLeast, decide_eq_false_iff_not, not_le] at hfalse
    exact ⟨by rw [hzero, Ratio.value_zero], hfalse⟩
  · rw [hrounded] at ht ⊢
    exact similarity_eq_of_passes (isUpward_reaches t) ht
  · rw [hrounded] at hne ⊢
    exact (similarity_eq_or (isUpward_reaches t) a b).resolve_left hne
  · rw [← sharedCount_eq_card]
    exact matchedCount_le_sharedCount left right

/-- Of two characters one is shared: a cutoff of one half hides nothing, and one of three quarters
is found not to pass by the shared characters alone. -/
theorem similarity_oneShared :
    (1 / 2 ≤ (similarity (atLeast 0) "ab" "xb").value ∧
      similarity (atLeast (1 / 2)) "ab" "xb" = similarity (atLeast 0) "ab" "xb") ∧
    similarity (atLeast (3 / 4)) "ab" "xb" ≠ similarity (atLeast 0) "ab" "xb" ∧
      (similarity (atLeast 0) "ab" "xb").value < 3 / 4 := by
  have hfull : similarity (atLeast 0) "ab" "xb" = ⟨2, 4⟩ := by decide +kernel
  have hhidden : similarity (atLeast (3 / 4)) "ab" "xb" = .zero := by decide +kernel
  have hhalf : 1 / 2 ≤ (similarity (atLeast 0) "ab" "xb").value := by
    rw [hfull]
    norm_num [Ratio.value]
  have hne : similarity (atLeast (3 / 4)) "ab" "xb" ≠ similarity (atLeast 0) "ab" "xb" := by
    rw [hfull, hhidden]
    decide
  have hkeeps : KeepsDecisions "ab" "xb" := similarity_decides "ab" "xb"
  exact ⟨⟨hhalf, hkeeps.passed (1 / 2) hhalf⟩, hne, (hkeeps.hidden (3 / 4) hne).2⟩

end Text

end TreeDiff
