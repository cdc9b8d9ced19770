/-
# Pairing siblings by their keys

For every key the first old entry with this key goes with the first new one, the second with the
second, and so on until one side runs out.  This description does not tell old from new, it says who
is left over, and it does not change when entries that were left over are taken away beforehand.
-/
import Mathlib.Data.List.Basic
import Mathlib.Data.List.Zip
import TreeDiff.Proofs.Linking
import TreeDiff.Diff.Pairing

namespace TreeDiff

lemma takeFirst?_eq_some {α : Type} {p : α → Bool} {items others : List α} {a : α}
    (h : takeFirst? p items = some (a, others)) :
    ∃ before after, items = before ++ a :: after ∧ others = before ++ after ∧ p a = true ∧
      ∀ b ∈ before, p b = false := by
  induction items generalizing others with
  | nil => simp [takeFirst?] at h
  | cons b rest ih =>
    rw [takeFirst?] at h
    by_cases hb : p b = true
    · rw [if_pos hb, Option.some.injEq, Prod.mk.injEq] at h
      obtain ⟨rfl, rfl⟩ := h
      exact ⟨[], rest, rfl, rfl, hb, by simp⟩
    · rw [if_neg hb, Option.map_eq_some_iff] at h
      obtain ⟨⟨c, remaining⟩, hrest, hc⟩ := h
      obtain ⟨rfl, rfl⟩ := Prod.mk.injEq .. ▸ hc
      obtain ⟨before, after, rfl, rfl, hpa, hbefore⟩ := ih hrest
      refine ⟨b :: before, after, rfl, rfl, hpa, ?_⟩
      rw [List.forall_mem_cons]
      exact ⟨Bool.eq_false_iff.2 hb, hbefore⟩

lemma takeFirst?_eq_none {α : Type} {p : α → Bool} {items : List α}
    (h : takeFirst? p items = none) : ∀ a ∈ items, p a = false := by
  induction items with
  | nil => simp
  | cons b rest ih =>
    rw [takeFirst?] at h
    by_cases hb : p b = true
    · rw [if_pos hb] at h
      exact absurd h (by simp)
    · rw [if_neg hb, Option.map_eq_none_iff] at h
      rw [List.forall_mem_cons]
      exact ⟨Bool.eq_false_iff.2 hb, ih h⟩

/-- The entries with a key. -/
def withKey (k : Key) (entries : List Entry) : List Entry := entries.filter fun e => e.key = k

lemma mem_withKey {k : Key} {entries : List Entry} {e : Entry} :
    e ∈ withKey k entries ↔ e ∈ entries ∧ e.key = k := by
  simp [withKey]

lemma withKey_eq_nil {k : Key} {entries : List Entry} (h : ∀ e ∈ entries, e.key ≠ k) :
    withKey k entries = [] := by
  simpa [withKey, List.filter_eq_nil_iff] using h

/-- **The pairs of one key.**  The entries with the key go together in their order. -/
theorem filter_pairByKey (k : Key) (olds news : List Entry) :
    (pairByKey olds news).filter (fun p => p.1.key = k) =
      (withKey k olds).zip (withKey k news) := by
  induction olds generalizing news with
  | nil => rfl
  | cons old olds ih =>
    rw [pairByKey]
    cases hfirst : takeFirst? (fun new : Entry => decide (new.key = old.key)) news with
    | none =>
      have hnone := takeFirst?_eq_none hfirst
      simp only [decide_eq_false_iff_not] at hnone
      by_cases hk : old.key = k
      · have hnil : withKey k news = [] := withKey_eq_nil fun e he => hk ▸ hnone e he
        simp only [ih, hnil, List.zip_nil_right]
      · have hcons : withKey k (old :: olds) = withKey k olds := by simp [withKey, hk]
        simp only [ih, hcons]
    | some found =>
      obtain ⟨new, others⟩ := found
      obtain ⟨before, after, rfl, rfl, hkey, hbefore⟩ := takeFirst?_eq_some hfirst
      simp only [decide_eq_true_eq] at hkey
      simp only [decide_eq_false_iff_not] at hbefore
      by_cases hk : old.key = k
      · have hnil : withKey k before = [] := withKey_eq_nil fun e he => hk ▸ hbefore e he
        have hothers : withKey k (before ++ after) = withKey k after := by
          rw [withKey, List.filter_append, ← withKey, ← withKey, hnil, List.nil_append]
        have hnews : withKey k (before ++ new :: after) = new :: withKey k after := by
          rw [withKey, List.filter_append, ← withKey, hnil, List.nil_append,
            List.filter_cons_of_pos (by simp [hkey, hk]), ← withKey]
        have holds : withKey k (old :: olds) = old :: withKey k olds := by simp [withKey, hk]
        rw [List.filter_cons_of_pos (by simp [hk]), ih, holds, hnews, hothers, List.zip_cons_cons]
      · have hnew : ¬ new.key = k := hkey ▸ hk
        have hnews : withKey k (before ++ new :: after) = withKey k (before ++ after) := by
          simp [withKey, List.filter_append, hnew]
        have holds : withKey k (old :: olds) = withKey k olds := by simp [withKey, hk]
        rw [List.filter_cons_of_neg (by simp [hk]), ih, holds, hnews]

lemma mem_pairByKey {olds news : List Entry} {p : Entry × Entry} :
    p ∈ pairByKey olds news ↔ p ∈ (withKey p.1.key olds).zip (withKey p.1.key news) := by
  rw [← filter_pairByKey, List.mem_filter]
  simp

section

variable {olds news : List Entry} {p : Entry × Entry}

lemma key_eq_of_mem_pairByKey (h : p ∈ pairByKey olds news) : p.1.key = p.2.key :=
  (mem_withKey.1 (List.of_mem_zip (mem_pairByKey.1 h)).2).2.symm

lemma fst_mem_of_mem_pairByKey (h : p ∈ pairByKey olds news) : p.1 ∈ olds :=
  (mem_withKey.1 (List.of_mem_zip (mem_pairByKey.1 h)).1).1

lemma snd_mem_of_mem_pairByKey (h : p ∈ pairByKey olds news) : p.2 ∈ news :=
  (mem_withKey.1 (List.of_mem_zip (mem_pairByKey.1 h)).2).1

/-- Pairing by keys does not tell old from new. -/
lemma swap_mem_pairByKey : p.swap ∈ pairByKey news olds ↔ p ∈ pairByKey olds news := by
  suffices h : ∀ {olds news : List Entry} {p : Entry × Entry}, p ∈ pairByKey olds news →
      p.swap ∈ pairByKey news olds from ⟨fun hp => p.swap_swap ▸ h hp, h⟩
  intro olds news p hp
  have hkey := key_eq_of_mem_pairByKey hp
  rw [mem_pairByKey] at hp ⊢
  rw [Prod.fst_swap, ← hkey, ← List.zip_swap]
  exact List.mem_map_of_mem hp

/-- **Nothing with a common key is left over on both sides.** -/
theorem mem_pairByKey_of_key_eq {old new : Entry} (hold : old ∈ olds) (hnew : new ∈ news)
    (hkey : old.key = new.key) :
    (∃ p ∈ pairByKey olds news, p.1 = old) ∨ ∃ p ∈ pairByKey olds news, p.2 = new := by
  have hold' : old ∈ withKey old.key olds := mem_withKey.2 ⟨hold, rfl⟩
  have hnew' : new ∈ withKey old.key news := mem_withKey.2 ⟨hnew, hkey.symm⟩
  have hsub : ∀ p ∈ (withKey old.key olds).zip (withKey old.key news), p ∈ pairByKey olds news := by
    intro p hp
    rw [← filter_pairByKey] at hp
    exact List.mem_of_mem_filter hp
  rcases Nat.le_total (withKey old.key olds).length (withKey old.key news).length with hle | hle
  · rw [← List.map_fst_zip hle, List.mem_map] at hold'
    obtain ⟨p, hp, rfl⟩ := hold'
    exact Or.inl ⟨p, hsub p hp, rfl⟩
  · rw [← List.map_snd_zip hle, List.mem_map] at hnew'
    obtain ⟨p, hp, rfl⟩ := hnew'
    exact Or.inr ⟨p, hsub p hp, rfl⟩

/-- No entry is paired twice. -/
lemma pairwise_pairByKey (holds : (olds.map Entry.seq).Nodup) (hnews : (news.map Entry.seq).Nodup) :
    (pairByKey olds news).Pairwise fun p q => p.1.seq ≠ q.1.seq ∧ p.2.seq ≠ q.2.seq := by
  induction olds generalizing news with
  | nil => exact List.Pairwise.nil
  | cons old olds ih =>
    rw [List.map_cons, List.nodup_cons] at holds
    rw [pairByKey]
    cases hfirst : takeFirst? (fun new : Entry => decide (new.key = old.key)) news with
    | none => exact ih holds.2 hnews
    | some found =>
      obtain ⟨new, others⟩ := found
      obtain ⟨before, after, rfl, rfl, -, -⟩ := takeFirst?_eq_some hfirst
      have hcons : (new.seq :: (before ++ after).map Entry.seq).Nodup := by
        refine List.Perm.nodup ?_ hnews
        rw [← List.map_cons]
        exact List.perm_middle.map _
      rw [List.nodup_cons] at hcons
      refine List.pairwise_cons.2 ⟨fun p hp => ⟨?_, ?_⟩, ih holds.2 hcons.2⟩
      · intro hseq
        exact holds.1 (hseq ▸ List.mem_map_of_mem (fst_mem_of_mem_pairByKey hp))
      · intro hseq
        exact hcons.1 (hseq ▸ List.mem_map_of_mem (snd_mem_of_mem_pairByKey hp))

end

/-! ## Entries that were left over -/

lemma zip_filter_of_keep {α β : Type} {keepLeft : α → Bool} {keepRight : β → Bool} {as : List α}
    {bs : List β} (h : ∀ p ∈ as.zip bs, keepLeft p.1 = true ∧ keepRight p.2 = true) :
    (as.filter keepLeft).zip (bs.filter keepRight) = as.zip bs := by
  induction as generalizing bs with
  | nil => rfl
  | cons a as ih =>
    cases bs with
    | nil => simp
    | cons b bs =>
      rw [List.zip_cons_cons, List.forall_mem_cons] at h
      rw [List.filter_cons_of_pos h.1.1, List.filter_cons_of_pos h.1.2, List.zip_cons_cons,
        List.zip_cons_cons, ih h.2]

/-- Taking away entries that were left over does not change the pairs. -/
lemma mem_pairByKey_filter {olds news : List Entry} {keepOld keepNew : Entry → Bool}
    (h : ∀ p ∈ pairByKey olds news, keepOld p.1 = true ∧ keepNew p.2 = true) {p : Entry × Entry} :
    p ∈ pairByKey (olds.filter keepOld) (news.filter keepNew) ↔ p ∈ pairByKey olds news := by
  have hcomm : ∀ (k : Key) (keep : Entry → Bool) (entries : List Entry),
      withKey k (entries.filter keep) = (withKey k entries).filter keep := by
    intro k keep entries
    simp only [withKey, List.filter_filter, Bool.and_comm]
  rw [mem_pairByKey, mem_pairByKey, hcomm, hcomm, zip_filter_of_keep]
  intro q hq
  rw [← filter_pairByKey] at hq
  exact h q (List.mem_of_mem_filter hq)

end TreeDiff
