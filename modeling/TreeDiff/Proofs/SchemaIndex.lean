/-
# The index of a schema

Definitions of one name compete: the first named one stays, or else the first one.  Their names are
listed once each, in the order in which they come first.
-/
import Mathlib.Data.List.Induction
import Mathlib.Tactic.Lemma
import TreeDiff.Schema.Basic

namespace TreeDiff.Schema

variable {types definitions : List NodeType} {d : NodeType} {name : String}

lemma map_name_keep : (keep types d).map (·.name) =
    if d.name ∈ types.map (·.name) then types.map (·.name) else types.map (·.name) ++ [d.name] := by
  induction types with
  | nil => simp [keep]
  | cons t rest ih =>
    by_cases ht : t.name = d.name
    · by_cases hnamed : (d.named && !t.named) = true
      · simp [keep, ht, hnamed]
      · simp [keep, ht, hnamed]
    · rw [keep, if_neg ht, List.map_cons, ih, List.map_cons]
      by_cases hmem : d.name ∈ rest.map (·.name)
      · rw [if_pos hmem, if_pos (List.mem_cons_of_mem _ hmem)]
      · rw [if_neg hmem, if_neg fun h => hmem ((List.mem_cons.1 h).resolve_left (Ne.symm ht)),
          List.cons_append]

/-- Which definition stays: the new one if there is none yet, or if it is named and the old one is
not. -/
lemma find?_keep : (keep types d).find? (fun t => t.name = name) =
    if d.name = name then
      match types.find? fun t => t.name = name with
      | none => some d
      | some t => some (if d.named && !t.named then d else t)
    else types.find? fun t => t.name = name := by
  induction types with
  | nil =>
    by_cases hd : d.name = name
    · simp [keep, hd]
    · simp [keep, hd]
  | cons t rest ih =>
    by_cases ht : t.name = d.name
    · by_cases hd : d.name = name
      · by_cases hnamed : (d.named && !t.named) = true
        · simp [keep, ht, hd, hnamed]
        · simp [keep, ht, hd, hnamed]
      · by_cases hnamed : (d.named && !t.named) = true
        · simp [keep, ht, hd, hnamed]
        · simp [keep, ht, hd, hnamed]
    · rw [keep, if_neg ht, List.find?_cons, List.find?_cons, ih]
      by_cases hname : t.name = name
      · have hd : d.name ≠ name := fun h => ht (hname.trans h.symm)
        simp [hname, hd]
      · simp [hname]

lemma mem_of_mem_keep {t : NodeType} (h : t ∈ keep types d) : t ∈ types ∨ t = d := by
  induction types with
  | nil => exact Or.inr (List.mem_singleton.1 h)
  | cons u rest ih =>
    rw [keep] at h
    split at h
    · rcases List.mem_cons.1 h with rfl | h
      · split
        · exact Or.inr rfl
        · exact Or.inl List.mem_cons_self
      · exact Or.inl (List.mem_cons_of_mem u h)
    · rcases List.mem_cons.1 h with rfl | h
      · exact Or.inl List.mem_cons_self
      · exact (ih h).imp_left (List.mem_cons_of_mem u)

lemma mem_of_mem_foldl_keep {t : NodeType} (h : t ∈ definitions.foldl keep types) :
    t ∈ types ∨ t ∈ definitions := by
  induction definitions generalizing types with
  | nil => exact Or.inl h
  | cons d rest ih =>
    rcases ih h with h | h
    · rcases mem_of_mem_keep h with h | rfl
      · exact Or.inl h
      · exact Or.inr List.mem_cons_self
    · exact Or.inr (List.mem_cons_of_mem d h)

/-- **Each name is listed once, in the order of the first definitions.** -/
theorem map_name_foldl_keep (definitions : List NodeType) :
    (definitions.foldl keep []).map (·.name) = (definitions.map (·.name)).eraseDups := by
  induction definitions using List.reverseRecOn with
  | nil => rfl
  | append_singleton rest d ih =>
    rw [List.foldl_append, List.foldl_cons, List.foldl_nil, map_name_keep, ih, List.map_append,
      List.eraseDups_append]
    by_cases hmem : d.name ∈ rest.map (·.name)
    · rw [if_pos (List.mem_eraseDups.2 hmem)]
      simp_all [List.removeAll]
    · rw [if_neg fun h => hmem (List.mem_eraseDups.1 h)]
      have hnew : [d.name].removeAll (rest.map (·.name)) = [d.name] := by
        simpa [List.removeAll] using hmem
      rw [List.map_singleton, hnew]
      rfl

/-- **The first named definition of a name stays, or else the first one.** -/
theorem find?_foldl_keep (definitions : List NodeType) (name : String) :
    (definitions.foldl keep []).find? (fun t => t.name = name) =
      (definitions.find? fun d => d.name = name && d.named).or
        (definitions.find? fun d => d.name = name) := by
  induction definitions using List.reverseRecOn with
  | nil => rfl
  | append_singleton rest d ih =>
    rw [List.foldl_append, List.foldl_cons, List.foldl_nil, find?_keep, ih, List.find?_append,
      List.find?_append]
    by_cases hd : d.name = name
    · cases hnamed : rest.find? fun d => d.name = name && d.named with
      | some t =>
        have ht : t.named = true := by
          have hboth := List.find?_some hnamed
          exact (Bool.and_eq_true_iff.1 hboth).2
        simp [hd, ht]
      | none =>
        cases hany : rest.find? fun d => d.name = name with
        | none => cases hdn : d.named <;> simp [hd, hdn]
        | some t =>
          -- no definition of the name so far is named
          have ht : t.named = false := by
            have hnone := List.find?_eq_none.1 hnamed t (List.mem_of_find?_eq_some hany)
            have hname := List.find?_some hany
            simp_all
          cases hdn : d.named <;> simp [hd, ht, hdn]
    · simp [hd]

end TreeDiff.Schema
