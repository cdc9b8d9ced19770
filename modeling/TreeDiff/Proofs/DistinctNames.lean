/-
# Distinct names

An object gives each of its names once, as a list of members does to which each member is added in
the place of an earlier one under its name.  The type of JSON values does not say so.
-/
import Mathlib.Data.List.Nodup
import Mathlib.Tactic.Lemma
import TreeDiff.Json.Basic

namespace TreeDiff

section

variable {κ ν : Type} [BEq κ] [LawfulBEq κ] {key : κ} {value : ν} {members : List (κ × ν)}

lemma mem_map_fst_assocPut {k : κ} :
    k ∈ (assocPut key value members).map Prod.fst ↔ k = key ∨ k ∈ members.map Prod.fst := by
  induction members with
  | nil => simp [assocPut]
  | cons member rest ih =>
    obtain ⟨k', v⟩ := member
    by_cases hk : k' = key
    · subst hk
      simp [assocPut]
    · have hbeq : (k' == key) = false := beq_eq_false_iff_ne.2 hk
      rw [assocPut, hbeq, if_neg Bool.false_ne_true, List.map_cons, List.mem_cons, ih,
        List.map_cons, List.mem_cons, or_left_comm]

lemma nodup_assocPut (h : (members.map Prod.fst).Nodup) :
    ((assocPut key value members).map Prod.fst).Nodup := by
  induction members with
  | nil => exact List.nodup_singleton _
  | cons member rest ih =>
    obtain ⟨k, v⟩ := member
    rw [List.map_cons, List.nodup_cons] at h
    by_cases hk : k = key
    · subst hk
      simpa [assocPut] using h
    · have hbeq : (k == key) = false := beq_eq_false_iff_ne.2 hk
      rw [assocPut, hbeq, if_neg Bool.false_ne_true, List.map_cons, List.nodup_cons,
        mem_map_fst_assocPut]
      exact ⟨fun hmem => hmem.elim hk h.1, ih h.2⟩

lemma mem_assocPut {p : κ × ν} (h : p ∈ assocPut key value members) :
    p = (key, value) ∨ p ∈ members := by
  induction members with
  | nil => exact Or.inl (List.mem_singleton.1 h)
  | cons member rest ih =>
    obtain ⟨k, v⟩ := member
    by_cases hk : k = key
    · subst hk
      simp only [assocPut, BEq.rfl, if_true, List.mem_cons] at h
      exact h.imp_right (List.mem_cons_of_mem _)
    · have hbeq : (k == key) = false := beq_eq_false_iff_ne.2 hk
      rw [assocPut, hbeq, if_neg Bool.false_ne_true] at h
      rcases List.mem_cons.1 h with rfl | h
      · exact Or.inr List.mem_cons_self
      · exact (ih h).imp_right (List.mem_cons_of_mem _)

end

namespace Json

mutual

/-- Whether no object in a value gives a name twice. -/
def hasDistinctNames : Json → Bool
  | .arr items => haveDistinctNames items
  | .obj members => decide (members.map Prod.fst).Nodup && membersHaveDistinctNames members
  | _ => true

/-- Whether no object in any of the values gives a name twice. -/
def haveDistinctNames : List Json → Bool
  | [] => true
  | json :: rest => hasDistinctNames json && haveDistinctNames rest

/-- Whether no object in the values of members gives a name twice. -/
def membersHaveDistinctNames : List (String × Json) → Bool
  | [] => true
  | (_, json) :: rest => hasDistinctNames json && membersHaveDistinctNames rest

end

section

variable {items : List Json} {members : List (String × Json)} {json : Json}

@[simp] lemma hasDistinctNames_arr :
    (arr items).hasDistinctNames = true ↔ ∀ json ∈ items, json.hasDistinctNames = true := by
  rw [hasDistinctNames]
  induction items with
  | nil => simp [haveDistinctNames]
  | cons json rest ih => simp [haveDistinctNames, ih]

@[simp] lemma hasDistinctNames_obj : (obj members).hasDistinctNames = true ↔
    (members.map Prod.fst).Nodup ∧ ∀ p ∈ members, p.2.hasDistinctNames = true := by
  have hall : membersHaveDistinctNames members = true ↔
      ∀ p ∈ members, p.2.hasDistinctNames = true := by
    induction members with
    | nil => simp [membersHaveDistinctNames]
    | cons member rest ih =>
      rw [membersHaveDistinctNames, Bool.and_eq_true, ih, List.forall_mem_cons]
  rw [hasDistinctNames, Bool.and_eq_true, decide_eq_true_eq, hall]

lemma hasDistinctNames_of_lookup {name : String} (h : (obj members).hasDistinctNames = true)
    (hlookup : members.lookup name = some json) : json.hasDistinctNames = true :=
  have hmem : (name, json) ∈ members := by
    obtain ⟨before, after, rfl, -⟩ := List.lookup_eq_some_iff.1 hlookup
    simp
  (hasDistinctNames_obj.1 h).2 _ hmem

end

end Json

end TreeDiff
