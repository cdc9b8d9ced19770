/-
# Keys that are the same

Keys are compared by value: truth values and whole numbers count as integers, moments as instants if
their distances from universal time are known, and every other key is the same as itself alone.  On
what can be a key this is an equivalence, so a map in which no two keys are the same has one entry
for each key that is found in it.
-/
import Mathlib.Tactic.Lemma
import TreeDiff.Value.Merge

namespace TreeDiff

namespace Binary64

variable {x y : Binary64} {m n : Bool} {i j : Nat}

lemma unitsPerOne_dvd_unitsBound : unitsPerOne ∣ unitsBound := by
  have h : 1074 ≤ 2098 := by omega
  unfold unitsPerOne unitsBound
  -- the powers are too large to be computed
  generalize 1074 = m, 2098 = n at h ⊢
  exact Nat.pow_dvd_pow 2 h

lemma unitsBound_pos : 0 < unitsBound := by
  unfold unitsBound
  generalize 2098 = n
  exact Nat.two_pow_pos n

lemma not_dvd_of_toInt? (h : (finite m i).toInt? = none) : ¬ unitsPerOne ∣ i := by
  intro hdvd
  rw [toInt?, if_pos (Nat.mod_eq_zero_of_dvd hdvd)] at h
  cases h

lemma ne_unitsBound_of_toInt? (h : (finite m i).toInt? = none) : i ≠ unitsBound := by
  intro hi
  have hdvd := not_dvd_of_toInt? h
  rw [hi] at hdvd
  exact hdvd unitsPerOne_dvd_unitsBound

lemma pos_of_toInt? (h : (finite m i).toInt? = none) : 0 < i := by
  rcases Nat.eq_zero_or_pos i with rfl | hpos
  · exact absurd (Nat.dvd_zero _) (not_dvd_of_toInt? h)
  · exact hpos

/-- A magnitude that is not zero and its sign are told by the signed number. -/
lemma signed_injective (hi : 0 < i)
    (h : (if m then -(i : Int) else i) = if n then -(j : Int) else j) :
    m = n ∧ i = j := by
  cases m <;> cases n <;> grind

lemma signedUnits?_isSome_iff : x.signedUnits?.isSome ↔ x ≠ .nan := by
  cases x with
  | nan => exact iff_of_false Bool.false_ne_true (absurd rfl)
  | _ => exact iff_of_true rfl nofun

/-- Numbers that are not whole count the same units only if they are the same.  Only the two zeros
do otherwise, and they are whole. -/
lemma eq_of_signedUnits?_eq (hx : x.toInt? = none) (hy : y.toInt? = none)
    (h : x.signedUnits? = y.signedUnits?) : x = y := by
  cases x with
  | nan =>
    cases y with
    | nan => rfl
    | _ => cases h
  | infinity m =>
    cases y with
    | nan => cases h
    | infinity n => rw [(signed_injective unitsBound_pos (Option.some.inj h)).1]
    | finite n j =>
      have hj := (signed_injective unitsBound_pos (Option.some.inj h)).2
      exact absurd hj.symm (ne_unitsBound_of_toInt? hy)
  | finite m i =>
    cases y with
    | nan => cases h
    | infinity n =>
      have hi := (signed_injective (pos_of_toInt? hx) (Option.some.inj h)).2
      exact absurd hi (ne_unitsBound_of_toInt? hx)
    | finite n j =>
      obtain ⟨rfl, rfl⟩ := signed_injective (pos_of_toInt? hx) (Option.some.inj h)
      rfl

/-- Numbers have the same value if they count the same units. -/
lemma le_and_le_iff : x.le y = true ∧ y.le x = true ↔
    x.signedUnits?.isSome ∧ x.signedUnits? = y.signedUnits? := by
  rw [le, le]
  cases x.signedUnits? with
  | none => simp
  | some u =>
    cases y.signedUnits? with
    | none => simp
    | some w => simp [Int.le_antisymm_iff]

/-- Numbers that are not whole have the same value only if they are the same. -/
lemma le_and_le_iff_eq (hx : x.toInt? = none) (hy : y.toInt? = none) :
    x.le y = true ∧ y.le x = true ↔ x ≠ .nan ∧ x = y := by
  rw [le_and_le_iff, signedUnits?_isSome_iff]
  exact and_congr_right fun _ => ⟨eq_of_signedUnits?_eq hx hy, fun h => h ▸ rfl⟩

end Binary64

namespace Value

variable {a b c k key value v : Value} {entries : List (Value × Value)}

/-! ## An equivalence -/

/-- Whether a value can be found as a key.  Nothing can be found under the result of an undefined
operation, which is not the same as itself. -/
def isKey : Value → Bool
  | .null | .bool _ | .int _ | .text _ | .bytes _ | .date _ | .moment _ => true
  | .float x => x ≠ .nan
  | .list _ | .pair _ _ | .set _ | .map _ | .again _ => false

/-- Numbers that are not whole are compared by value.  Infinities are compared before all others,
but as these would be. -/
lemma sameKey_float_of_not_whole {x y : Binary64} (hx : x.toInt? = none) (hy : y.toInt? = none) :
    sameKey (.float x) (.float y) = true ↔ x ≠ .nan ∧ x = y := by
  have hvalue := Binary64.le_and_le_iff_eq hx hy
  cases x with
  | infinity m =>
    cases y with
    | infinity n => simp [sameKey]
    | _ => simpa [sameKey, keyInt?, keyNumber?, hx, hy] using hvalue
  | _ => simpa [sameKey, keyInt?, keyNumber?, hx, hy] using hvalue

/-- A number that is whole is compared as an integer. -/
lemma sameKey_float_of_whole {x y : Binary64} (h : x.toInt?.isSome ∨ y.toInt?.isSome) :
    sameKey (.float x) (.float y) = true ↔ x.toInt? = y.toInt? := by
  rcases h with h | h
  · cases x with
    | finite m i =>
      cases hx : (Binary64.finite m i).toInt? <;> cases hy : y.toInt? <;>
        simp_all [sameKey, keyInt?]
    | _ => cases h
  · cases y with
    | finite n j =>
      cases hx : x.toInt? <;> cases hy : (Binary64.finite n j).toInt? <;>
        simp_all [sameKey, keyInt?]
    | _ => cases h

lemma sameKey_float {x y : Binary64} : sameKey (.float x) (.float y) = true ↔
    x ≠ .nan ∧ x = y ∨ x.toInt?.isSome ∧ x.toInt? = y.toInt? := by
  by_cases hwhole : x.toInt?.isSome ∨ y.toInt?.isSome
  · rw [sameKey_float_of_whole hwhole]
    constructor
    · intro h
      exact Or.inr ⟨hwhole.elim id fun hy => h ▸ hy, h⟩
    · rintro (⟨-, rfl⟩ | ⟨-, h⟩)
      · rfl
      · exact h
  · rw [not_or, Option.not_isSome_iff_eq_none, Option.not_isSome_iff_eq_none] at hwhole
    rw [sameKey_float_of_not_whole hwhole.1 hwhole.2, hwhole.1]
    simp

lemma sameKey_moment {m n : Moment} : sameKey (.moment m) (.moment n) = true ↔
    m = n ∨ m.instant?.isSome ∧ m.instant? = n.instant? := by
  rw [sameKey]
  split
  · next hsome =>
    rw [beq_iff_eq]
    exact ⟨fun h => Or.inr ⟨hsome, h⟩, fun h => h.elim (congrArg _) And.right⟩
  · next hnone => simp [hnone]

lemma sameKey_iff : sameKey a b = true ↔
    a.isKey ∧ a = b ∨ a.keyInt?.isSome ∧ a.keyInt? = b.keyInt? ∨
      a.keyInstant?.isSome ∧ a.keyInstant? = b.keyInstant? := by
  cases a with
  | float x =>
    cases b with
    | float y => simp [sameKey_float, isKey, keyInt?, keyInstant?]
    | _ => cases hx : x.toInt? <;> simp [sameKey, isKey, keyInt?, keyNumber?, keyInstant?, hx]
  | bool m =>
    cases b with
    | bool n => cases m <;> cases n <;> simp [sameKey, isKey, keyInt?, keyInstant?]
    | float y => cases hy : y.toInt? <;> simp [sameKey, isKey, keyInt?, keyInstant?, hy]
    | _ => simp [sameKey, isKey, keyInt?, keyInstant?]
  | moment m =>
    cases b with
    | moment n => simp [sameKey_moment, isKey, keyInt?, keyInstant?]
    | float y =>
      cases hm : m.instant? <;> cases hy : y.toInt? <;>
        simp [sameKey, isKey, keyInt?, keyNumber?, keyInstant?, hm, hy]
    | _ => cases hm : m.instant? <;> simp [sameKey, isKey, keyInt?, keyNumber?, keyInstant?, hm]
  | _ =>
    cases b with
    | float y => cases hy : y.toInt? <;> simp [sameKey, isKey, keyInt?, keyNumber?, keyInstant?, hy]
    | _ => simp [sameKey, isKey, keyInt?, keyNumber?, keyInstant?]

lemma sameKey_self (h : k.isKey = true) : sameKey k k = true := sameKey_iff.2 (Or.inl ⟨h, rfl⟩)

lemma sameKey_symm (h : sameKey a b = true) : sameKey b a = true := by
  rcases sameKey_iff.1 h with ⟨hkey, rfl⟩ | ⟨hsome, heq⟩ | ⟨hsome, heq⟩
  · exact sameKey_self hkey
  · exact sameKey_iff.2 (Or.inr (Or.inl ⟨heq ▸ hsome, heq.symm⟩))
  · exact sameKey_iff.2 (Or.inr (Or.inr ⟨heq ▸ hsome, heq.symm⟩))

lemma sameKey_comm : sameKey a b = sameKey b a := Bool.eq_iff_iff.2 ⟨sameKey_symm, sameKey_symm⟩

/-- What counts as an integer is no moment. -/
lemma keyInstant?_of_keyInt? (h : a.keyInt?.isSome) : a.keyInstant? = none := by
  cases a with
  | moment m => cases h
  | _ => rfl

lemma sameKey_trans (hab : sameKey a b = true) (hbc : sameKey b c = true) :
    sameKey a c = true := by
  rcases sameKey_iff.1 hab with ⟨-, rfl⟩ | ⟨hsome, heq⟩ | ⟨hsome, heq⟩
  · exact hbc
  · rcases sameKey_iff.1 hbc with ⟨-, rfl⟩ | ⟨-, heq'⟩ | ⟨hsome', -⟩
    · exact hab
    · exact sameKey_iff.2 (Or.inr (Or.inl ⟨hsome, heq.trans heq'⟩))
    · rw [keyInstant?_of_keyInt? (heq ▸ hsome)] at hsome'
      cases hsome'
  · rcases sameKey_iff.1 hbc with ⟨-, rfl⟩ | ⟨hsome', -⟩ | ⟨-, heq'⟩
    · exact hab
    · rw [heq, keyInstant?_of_keyInt? hsome'] at hsome
      cases hsome
    · exact sameKey_iff.2 (Or.inr (Or.inr ⟨hsome, heq.trans heq'⟩))

/-- Keys that are the same are the same as the same keys. -/
lemma sameKey_congr (h : sameKey a b = true) : sameKey a c = sameKey b c :=
  Bool.eq_iff_iff.2 ⟨sameKey_trans (sameKey_symm h), sameKey_trans h⟩

/-! ## Finding and putting -/

lemma find?_cons :
    find? key ((k, v) :: entries) = if sameKey k key then some v else find? key entries := rfl

lemma find?_congr (h : sameKey a b = true) : find? a entries = find? b entries := by
  induction entries with
  | nil => rfl
  | cons entry rest ih =>
    rw [find?_cons, find?_cons, ih, sameKey_comm (b := a), sameKey_congr h, sameKey_comm]

lemma find?_eq_none_iff :
    find? key entries = none ↔ ∀ k ∈ entries.map Prod.fst, sameKey k key = false := by
  induction entries with
  | nil => simp [find?]
  | cons entry rest ih =>
    rw [find?_cons, List.map_cons, List.forall_mem_cons, ← ih]
    cases sameKey entry.1 key <;> simp

lemma exists_mem_of_find? (h : find? key entries = some v) :
    ∃ k, (k, v) ∈ entries ∧ sameKey k key = true := by
  induction entries with
  | nil => cases h
  | cons entry rest ih =>
    obtain ⟨k', v'⟩ := entry
    rw [find?_cons] at h
    split at h
    · next hk =>
      cases h
      exact ⟨k', List.mem_cons_self, hk⟩
    · obtain ⟨k, hmem, hk⟩ := ih h
      exact ⟨k, List.mem_cons_of_mem _ hmem, hk⟩

/-- What has been put under a key is found there, and nothing else has changed. -/
lemma find?_put :
    find? key (put k value entries) = if sameKey k key then some value else find? key entries := by
  induction entries with
  | nil => rfl
  | cons entry rest ih =>
    obtain ⟨k', v'⟩ := entry
    rw [put]
    by_cases hk : sameKey k' k = true
    · rw [if_pos hk, find?_cons, find?_cons, sameKey_congr hk]
      cases sameKey k key <;> rfl
    · rw [if_neg hk, find?_cons, find?_cons, ih]
      by_cases hkey : sameKey k' key = true
      · have hne : ¬ sameKey k key = true := fun h => hk (sameKey_trans hkey (sameKey_symm h))
        rw [if_pos hkey, if_pos hkey, if_neg hne]
      · rw [if_neg hkey, if_neg hkey]

lemma put_of_find?_eq_some (h : find? k entries = some value) : put k value entries = entries := by
  induction entries with
  | nil => cases h
  | cons entry rest ih =>
    obtain ⟨k', v'⟩ := entry
    rw [find?_cons] at h
    rw [put]
    by_cases hk : sameKey k' k = true
    · rw [if_pos hk] at h ⊢
      cases h
      rfl
    · rw [if_neg hk] at h ⊢
      rw [ih h]

lemma put_of_find?_eq_none (h : find? k entries = none) :
    put k value entries = entries ++ [(k, value)] := by
  induction entries with
  | nil => rfl
  | cons entry rest ih =>
    obtain ⟨k', v'⟩ := entry
    rw [find?_eq_none_iff, List.map_cons, List.forall_mem_cons] at h
    rw [put, h.1, if_neg Bool.false_ne_true, ih (find?_eq_none_iff.2 h.2)]
    rfl

/-- A key keeps its place when it is put again, and a new one comes last. -/
lemma map_fst_put : (put k value entries).map Prod.fst =
    entries.map Prod.fst ++ if (find? k entries).isNone then [k] else [] := by
  induction entries with
  | nil => rfl
  | cons entry rest ih =>
    obtain ⟨k', v'⟩ := entry
    rw [put, find?_cons]
    by_cases hk : sameKey k' k = true
    · simp [hk]
    · simp [hk, ih]

/-! ## Dictionaries -/

/-- A map in which everything can be found, and under one key only. -/
structure IsDict (entries : List (Value × Value)) : Prop where
  isKey : ∀ k ∈ entries.map Prod.fst, k.isKey = true
  distinct : (entries.map Prod.fst).Pairwise fun a b => sameKey a b = false

namespace IsDict

lemma tail (h : IsDict ((k, v) :: entries)) : IsDict entries :=
  ⟨fun a ha => h.isKey a (List.mem_cons_of_mem _ ha), (List.pairwise_cons.1 h.distinct).2⟩

/-- No later key is the same as the first one. -/
lemma find?_tail (h : IsDict ((k, v) :: entries)) : find? k entries = none :=
  find?_eq_none_iff.2 fun a ha => sameKey_comm.trans ((List.pairwise_cons.1 h.distinct).1 a ha)

/-- Every entry is found under its key. -/
lemma find?_of_mem (h : IsDict entries) {e : Value × Value} (he : e ∈ entries) :
    find? e.1 entries = some e.2 := by
  induction entries with
  | nil => cases he
  | cons entry rest ih =>
    obtain ⟨k', v'⟩ := entry
    rcases List.mem_cons.1 he with rfl | he
    · rw [find?_cons, if_pos (sameKey_self (h.isKey k' List.mem_cons_self))]
    · have hne : sameKey k' e.1 = false :=
        (List.pairwise_cons.1 h.distinct).1 e.1 (List.mem_map_of_mem he)
      rw [find?_cons, hne, if_neg Bool.false_ne_true, ih h.tail he]

lemma put (h : IsDict entries) (hk : k.isKey = true) : IsDict (put k value entries) := by
  constructor
  · intro a ha
    rw [map_fst_put, List.mem_append] at ha
    rcases ha with ha | ha
    · exact h.isKey a ha
    · split at ha
      · rw [List.mem_singleton.1 ha]
        exact hk
      · cases ha
  · rw [map_fst_put]
    split
    · next hnone =>
      rw [List.pairwise_append]
      refine ⟨h.distinct, List.pairwise_singleton _ _, fun a ha b hb => ?_⟩
      rw [List.mem_singleton.1 hb]
      exact find?_eq_none_iff.1 (Option.isNone_iff_eq_none.1 hnone) a ha
    · rw [List.append_nil]
      exact h.distinct

end IsDict

end Value

end TreeDiff
