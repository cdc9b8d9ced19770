/-
# Choosing the best candidates first

Siblings that are left over are paired by taking candidates in the order of their keys and skipping
those that share an entry with one taken before.  The choice made in this way can be described
without the order in which candidates are found: no two chosen candidates share an entry, and a
candidate that was not chosen shares one with a chosen candidate that does not come after it.
Since candidates that share an entry have different keys, only one choice is like this.
-/
import Mathlib.Data.List.Pairwise
import Mathlib.Tactic.ByContra
import Mathlib.Tactic.Lemma
import TreeDiff.Diff.Pairing

namespace TreeDiff

/-! ## The order of keys -/

lemma lexNotAfter_refl (a : List Int) : lexNotAfter a a = true := by
  induction a with
  | nil => rfl
  | cons x xs ih => simp [lexNotAfter, ih]

lemma lexNotAfter_cons {x y : Int} {xs ys : List Int} :
    lexNotAfter (x :: xs) (y :: ys) = true ↔ x < y ∨ x = y ∧ lexNotAfter xs ys = true := by
  simp [lexNotAfter]

lemma lexNotAfter_total (a b : List Int) : lexNotAfter a b = true ∨ lexNotAfter b a = true := by
  induction a generalizing b with
  | nil => exact Or.inl rfl
  | cons x xs ih =>
    cases b with
    | nil => exact Or.inr rfl
    | cons y ys =>
      rw [lexNotAfter_cons, lexNotAfter_cons]
      rcases Int.lt_trichotomy x y with hxy | rfl | hxy
      · exact Or.inl (Or.inl hxy)
      · exact (ih ys).imp (fun h => Or.inr ⟨rfl, h⟩) fun h => Or.inr ⟨rfl, h⟩
      · exact Or.inr (Or.inl hxy)

lemma lexNotAfter_trans {a b c : List Int} (hab : lexNotAfter a b = true)
    (hbc : lexNotAfter b c = true) : lexNotAfter a c = true := by
  induction a generalizing b c with
  | nil => rfl
  | cons x xs ih =>
    cases b with
    | nil => exact absurd hab (by simp [lexNotAfter])
    | cons y ys =>
      cases c with
      | nil => exact absurd hbc (by simp [lexNotAfter])
      | cons z zs =>
        rw [lexNotAfter_cons] at hab hbc ⊢
        rcases hab with hxy | ⟨rfl, hxy⟩
        · rcases hbc with hyz | ⟨rfl, -⟩
          · exact Or.inl (Int.lt_trans hxy hyz)
          · exact Or.inl hxy
        · rcases hbc with hyz | ⟨rfl, hyz⟩
          · exact Or.inl hyz
          · exact Or.inr ⟨rfl, ih hxy hyz⟩

lemma lexNotAfter_antisymm {a b : List Int} (hab : lexNotAfter a b = true)
    (hba : lexNotAfter b a = true) : a = b := by
  induction a generalizing b with
  | nil =>
    cases b with
    | nil => rfl
    | cons y ys => exact absurd hba (by simp [lexNotAfter])
  | cons x xs ih =>
    cases b with
    | nil => exact absurd hab (by simp [lexNotAfter])
    | cons y ys =>
      rw [lexNotAfter_cons] at hab hba
      rcases hab with hxy | ⟨rfl, hxy⟩
      · rcases hba with hyx | ⟨rfl, -⟩ <;> omega
      · rcases hba with hyx | ⟨-, hyx⟩
        · omega
        · rw [ih hxy hyx]

/-- Candidates sorted by a key. -/
lemma pairwise_mergeSort_key {α : Type} (key : α → List Int) (items : List α) :
    (items.mergeSort fun a b => lexNotAfter (key a) (key b)).Pairwise fun a b =>
      lexNotAfter (key a) (key b) = true :=
  List.pairwise_mergeSort (fun a b c => lexNotAfter_trans (a := key a) (b := key b) (c := key c))
    (fun a b => Bool.or_eq_true_iff.2 (lexNotAfter_total (key a) (key b))) items

/-! ## Taking candidates in order -/

namespace Candidate

/-- The candidate seen from the other side. -/
def swap (c : Candidate) : Candidate := ⟨c.new, c.old, c.score⟩

@[simp] lemma swap_swap (c : Candidate) : c.swap.swap = c := rfl

lemma mem_map_swap {c : Candidate} {cs : List Candidate} : c ∈ cs.map swap ↔ c.swap ∈ cs := by
  rw [List.mem_map]
  constructor
  · rintro ⟨d, hd, rfl⟩
    exact hd
  · intro h
    exact ⟨c.swap, h, rfl⟩

lemma conflicts_iff {c d : Candidate} :
    c.conflicts d = true ↔ c.old.seq = d.old.seq ∨ c.new.seq = d.new.seq := by
  simp [conflicts]

lemma conflicts_swap (c d : Candidate) : c.swap.conflicts d.swap = c.conflicts d :=
  Bool.or_comm _ _

lemma conflicts_comm (c d : Candidate) : c.conflicts d = d.conflicts c := by
  rw [Bool.eq_iff_iff, conflicts_iff, conflicts_iff, eq_comm (a := c.old.seq),
    eq_comm (a := c.new.seq)]

lemma distance_comm (a b : Nat) : distance a b = distance b a := by
  simp only [distance]
  omega

/-- The order of candidates does not tell old from new. -/
lemma siblingKey_swap (c : Candidate) : c.swap.siblingKey = c.siblingKey := by
  simp only [siblingKey, swap, scoreKey, distance_comm c.new.ordinal, Int.min_comm c.new.seq,
    Int.max_comm c.new.seq]

end Candidate

/-- A choice among candidates that takes the best ones first. -/
structure BestFirst (candidates chosen : List Candidate) : Prop where
  subset : chosen ⊆ candidates
  apart : chosen.Pairwise fun c d => c.conflicts d = false
  blocked : ∀ c ∈ candidates, c ∉ chosen →
    ∃ d ∈ chosen, c.conflicts d = true ∧ lexNotAfter d.siblingKey c.siblingKey = true

section

variable {candidates chosen : List Candidate} {c : Candidate}

lemma greedyFrom_sublist (taken candidates : List Candidate) :
    (greedyFrom taken candidates).Sublist candidates := by
  induction candidates generalizing taken with
  | nil => exact List.Sublist.refl _
  | cons c rest ih =>
    rw [greedyFrom]
    split
    · exact (ih taken).cons c
    · exact (ih (c :: taken)).cons_cons c

lemma not_conflicts_of_mem_greedyFrom {taken : List Candidate}
    (hc : c ∈ greedyFrom taken candidates) : ∀ d ∈ taken, c.conflicts d = false := by
  induction candidates generalizing taken with
  | nil => simp [greedyFrom] at hc
  | cons b rest ih =>
    rw [greedyFrom] at hc
    split at hc
    · exact ih hc
    · rename_i hfree
      rcases List.mem_cons.1 hc with rfl | hc
      · intro d hd
        rw [Bool.eq_false_iff]
        exact fun hconf => hfree (List.any_eq_true.2 ⟨d, hd, hconf⟩)
      · exact fun d hd => ih hc d (List.mem_cons_of_mem b hd)

lemma pairwise_greedyFrom (taken candidates : List Candidate) :
    (greedyFrom taken candidates).Pairwise fun c d => c.conflicts d = false := by
  induction candidates generalizing taken with
  | nil => exact List.Pairwise.nil
  | cons c rest ih =>
    rw [greedyFrom]
    split
    · exact ih taken
    · refine List.pairwise_cons.2 ⟨fun d hd => ?_, ih (c :: taken)⟩
      rw [Candidate.conflicts_comm]
      exact not_conflicts_of_mem_greedyFrom hd c List.mem_cons_self

/-- A candidate that is skipped shares an entry with one that was taken before. -/
lemma blocked_of_not_mem_greedyFrom {taken : List Candidate}
    (hsorted : candidates.Pairwise fun c d => lexNotAfter c.siblingKey d.siblingKey = true)
    (hc : c ∈ candidates) (hskip : c ∉ greedyFrom taken candidates) :
    (∃ d ∈ taken, c.conflicts d = true) ∨
      ∃ d ∈ greedyFrom taken candidates,
        c.conflicts d = true ∧ lexNotAfter d.siblingKey c.siblingKey = true := by
  induction candidates generalizing taken with
  | nil => exact absurd hc List.not_mem_nil
  | cons b rest ih =>
    rw [List.pairwise_cons] at hsorted
    rw [greedyFrom] at hskip ⊢
    split at hskip
    · rename_i hconf
      rw [if_pos hconf]
      rcases List.mem_cons.1 hc with rfl | hc
      · exact Or.inl (List.any_eq_true.1 hconf)
      · exact ih hsorted.2 hc hskip
    · rename_i hfree
      rw [if_neg hfree]
      rw [List.mem_cons, not_or] at hskip
      have hrest : c ∈ rest := (List.mem_cons.1 hc).resolve_left hskip.1
      rcases ih hsorted.2 hrest hskip.2 with ⟨d, hd, hconf⟩ | ⟨d, hd, hconf⟩
      · rcases List.mem_cons.1 hd with rfl | hd
        · exact Or.inr ⟨d, List.mem_cons_self, hconf, hsorted.1 c hrest⟩
        · exact Or.inl ⟨d, hd, hconf⟩
      · exact Or.inr ⟨d, List.mem_cons_of_mem b hd, hconf⟩

/-- **Taking sorted candidates in order takes the best first.** -/
theorem bestFirst_greedyFrom
    (hsorted : candidates.Pairwise fun c d => lexNotAfter c.siblingKey d.siblingKey = true) :
    BestFirst candidates (greedyFrom [] candidates) where
  subset := (greedyFrom_sublist [] candidates).subset
  apart := pairwise_greedyFrom [] candidates
  blocked c hc hskip := by
    rcases blocked_of_not_mem_greedyFrom hsorted hc hskip with ⟨d, hd, -⟩ | h
    · exact absurd hd List.not_mem_nil
    · exact h

end

/-! ## Only one choice takes the best first -/

/-- Candidates with the same key that share an entry are the same. -/
def KeysTellApart (candidates : List Candidate) : Prop :=
  ∀ c ∈ candidates, ∀ d ∈ candidates, c.conflicts d = true → c.siblingKey = d.siblingKey → c = d

/-- The candidates that come before a candidate. -/
def earlier (candidates : List Candidate) (c : Candidate) : List Candidate :=
  candidates.filter fun d => !lexNotAfter c.siblingKey d.siblingKey

lemma length_earlier_lt {candidates : List Candidate} {c d : Candidate} (hd : d ∈ candidates)
    (hdc : lexNotAfter d.siblingKey c.siblingKey = true)
    (hcd : lexNotAfter c.siblingKey d.siblingKey = false) :
    (earlier candidates d).length < (earlier candidates c).length := by
  have heq : earlier candidates d =
      (earlier candidates c).filter fun e => !lexNotAfter d.siblingKey e.siblingKey := by
    rw [earlier, earlier, List.filter_filter]
    refine List.filter_congr fun e _ => ?_
    cases hde : lexNotAfter d.siblingKey e.siblingKey with
    | true => rfl
    | false =>
      cases hce : lexNotAfter c.siblingKey e.siblingKey with
      | true => exact absurd (lexNotAfter_trans hdc hce) (by simp [hde])
      | false => rfl
  rw [heq, List.length_filter_lt_length_iff_exists]
  exact ⟨d, List.mem_filter.2 ⟨hd, by simp [hcd]⟩, by simp [lexNotAfter_refl]⟩

namespace BestFirst

variable {candidates chosen others : List Candidate}

lemma eq_of_conflicts (h : BestFirst candidates chosen) {c d : Candidate} (hc : c ∈ chosen)
    (hd : d ∈ chosen) (hconf : c.conflicts d = true) : c = d := by
  have hsymm : Std.Symm fun c d : Candidate => c.conflicts d = false :=
    ⟨fun c d h => by rw [Candidate.conflicts_comm, h]⟩
  by_contra hne
  exact absurd (h.apart.forall hc hd hne) (by simp [hconf])

/-- The induction runs along the keys: what blocks a candidate comes before it. -/
lemma mem_of_mem (h : BestFirst candidates chosen) (h' : BestFirst candidates others)
    (hkeys : KeysTellApart candidates) {c : Candidate} (hc : c ∈ chosen) : c ∈ others := by
  generalize hn : (earlier candidates c).length = n
  induction n using Nat.strongRecOn generalizing c chosen others with
  | ind n ih =>
    by_contra hskip
    obtain ⟨d, hd, hconf, hle⟩ := h'.blocked c (h.subset hc) hskip
    -- the blocking candidate comes strictly before, so it is in both choices
    have hlt : lexNotAfter c.siblingKey d.siblingKey = false := by
      rw [Bool.eq_false_iff]
      intro hge
      have hcd := hkeys c (h.subset hc) d (h'.subset hd) hconf (lexNotAfter_antisymm hge hle)
      exact hskip (hcd ▸ hd)
    have hdc : d ∈ chosen :=
      ih _ (hn ▸ length_earlier_lt (h'.subset hd) hle hlt) h' h hd rfl
    exact hskip (h.eq_of_conflicts hc hdc hconf ▸ hd)

/-- **The best-first choice is unique.** -/
theorem mem_iff (h : BestFirst candidates chosen) (h' : BestFirst candidates others)
    (hkeys : KeysTellApart candidates) {c : Candidate} : c ∈ chosen ↔ c ∈ others :=
  ⟨h.mem_of_mem h' hkeys, h'.mem_of_mem h hkeys⟩

/-- A best-first choice stays one when candidates that were not chosen are taken away. -/
lemma of_subset (h : BestFirst candidates chosen) {fewer : List Candidate}
    (hfewer : fewer ⊆ candidates) (hchosen : chosen ⊆ fewer) : BestFirst fewer chosen :=
  ⟨hchosen, h.apart, fun c hc => h.blocked c (hfewer hc)⟩

lemma of_mem_iff (h : BestFirst candidates chosen) {same : List Candidate}
    (hsame : ∀ c, c ∈ same ↔ c ∈ candidates) : BestFirst same chosen :=
  h.of_subset (fun c hc => (hsame c).1 hc) fun c hc => (hsame c).2 (h.subset hc)

/-- A best-first choice seen from the other side. -/
lemma swap (h : BestFirst candidates chosen) :
    BestFirst (candidates.map Candidate.swap) (chosen.map Candidate.swap) := by
  refine ⟨List.map_subset _ h.subset, ?_, ?_⟩
  · rw [List.pairwise_map]
    exact h.apart.imp fun hcd => by rwa [Candidate.conflicts_swap]
  · rw [List.forall_mem_map]
    intro c hc hskip
    obtain ⟨d, hd, hconf, hle⟩ := h.blocked c hc fun hin => hskip (List.mem_map_of_mem hin)
    refine ⟨d.swap, List.mem_map_of_mem hd, ?_, ?_⟩
    · rw [Candidate.conflicts_swap]
      exact hconf
    · rw [Candidate.siblingKey_swap, Candidate.siblingKey_swap]
      exact hle

end BestFirst

end TreeDiff
