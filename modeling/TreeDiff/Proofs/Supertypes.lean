/-
# What abstract node types stand for

An abstract node type stands for its subtypes, and if these are abstract for theirs in turn.  Its
fields and its children are worked out by a recursion that never enters a definition again below
itself, so that it enters the same definition along several ways and cuts circles at different
places.  Still the outcome is what plain reachability says: the union of what the reachable
definitions declare.  The reason is that a definition that can be reached from a name can be reached
without coming back to this name.
-/
import Mathlib.Logic.Relation
import TreeDiff.Proofs.FieldUnions

namespace TreeDiff

namespace NodeType

/-- Whether the definition of one name lists another one among its subtypes. -/
def Refers (types : List NodeType) (a b : String) : Prop :=
  ∃ t, types.find? (fun t => t.name = a) = some t ∧ ∃ ref ∈ t.subtypes, ref.name = b

/-- Whether a definition that is not abstract is reached from a name by going from definitions to
their subtypes. -/
def StandsFor (types : List NodeType) (name : String) (d : NodeType) : Prop :=
  ∃ leaf, Relation.ReflTransGen (Refers types) name leaf ∧
    types.find? (fun t => t.name = leaf) = some d ∧ d.isSupertype = false

section

variable {types : List NodeType} {name other : String} {d t : NodeType}

lemma subtypes_eq_nil (h : t.isSupertype = false) : t.subtypes = [] := by
  simpa [isSupertype] using h

/-! ## Leaving a definition out -/

lemma find?_without : (without types name).find? (fun t => t.name = other) =
    if other = name then none else types.find? fun t => t.name = other := by
  rw [without, List.find?_filter]
  split
  · next heq =>
    rw [List.find?_eq_none]
    intro t _
    simp [heq]
  · next hne =>
    congr 1
    funext t
    by_cases ht : t.name = other
    · simp [ht, hne]
    · simp [ht]

lemma find?_of_without (h : (without types name).find? (fun t => t.name = other) = some t) :
    types.find? (fun t => t.name = other) = some t := by
  rw [find?_without] at h
  exact (Option.ite_none_left_eq_some.1 h).2

lemma Refers.of_without {a b : String} (h : Refers (without types name) a b) :
    Refers types a b := by
  obtain ⟨t, ht, href⟩ := h
  exact ⟨t, find?_of_without ht, href⟩

lemma StandsFor.of_without (h : StandsFor (without types name) other d) :
    StandsFor types other d := by
  obtain ⟨leaf, hpath, hd, hleaf⟩ := h
  have hpath' := Relation.ReflTransGen.mono (fun _ _ => Refers.of_without) _ _ hpath
  exact ⟨leaf, hpath', find?_of_without hd, hleaf⟩

/-- Nothing is reached from a name without a definition. -/
lemma not_standsFor (h : types.find? (fun t => t.name = name) = none) :
    ¬StandsFor types name d := by
  rintro ⟨leaf, hpath, hd, -⟩
  rcases hpath.cases_head with rfl | ⟨b, ⟨t, ht, -⟩, -⟩
  · simp [h] at hd
  · simp [h] at ht

/-- **Coming back to a name is never needed.**  What is reached from anywhere is reached without an
abstract definition, or else from one of its subtypes without it. -/
theorem StandsFor.without_or (hfind : types.find? (fun t => t.name = name) = some t)
    (ht : t.isSupertype = true) (h : StandsFor types other d) :
    StandsFor (without types name) other d ∨
      ∃ ref ∈ t.subtypes, StandsFor (without types name) ref.name d := by
  obtain ⟨leaf, hpath, hd, hleaf⟩ := h
  induction hpath using Relation.ReflTransGen.head_induction_on with
  | refl =>
    have hne : leaf ≠ name := by
      rintro rfl
      rw [hfind] at hd
      cases hd
      exact Bool.false_ne_true (hleaf.symm.trans ht)
    exact Or.inl ⟨leaf, .refl, by rw [find?_without, if_neg hne, hd], hleaf⟩
  | @head a b hab _ ih =>
    rcases ih with hb | hsub
    · obtain ⟨u, hu, ref, href, rfl⟩ := hab
      by_cases ha : a = name
      · -- the last visit to the definition: from here on it is left out
        subst ha
        rw [hfind] at hu
        cases hu
        exact Or.inr ⟨ref, href, hb⟩
      · obtain ⟨leaf', hpath', hd', hleaf'⟩ := hb
        have hstep : Refers (without types name) a ref.name :=
          ⟨u, by rw [find?_without, if_neg ha, hu], ref, href, rfl⟩
        exact Or.inl ⟨leaf', hpath'.head hstep, hd', hleaf'⟩
    · exact Or.inr hsub

/-- An abstract definition stands for what its subtypes stand for without it. -/
lemma standsFor_iff_of_supertype (hfind : types.find? (fun t => t.name = name) = some t)
    (ht : t.isSupertype = true) :
    StandsFor types name d ↔ ∃ ref ∈ t.subtypes, StandsFor (without types name) ref.name d := by
  constructor
  · intro h
    refine (h.without_or hfind ht).resolve_left (not_standsFor ?_)
    rw [find?_without, if_pos rfl]
  · rintro ⟨ref, href, h⟩
    obtain ⟨leaf, hpath, hd, hleaf⟩ := h.of_without
    exact ⟨leaf, hpath.head ⟨t, hfind, ref, href, rfl⟩, hd, hleaf⟩

/-- A definition that is not abstract stands for itself. -/
lemma standsFor_iff_of_leaf (hfind : types.find? (fun t => t.name = name) = some t)
    (ht : t.isSupertype = false) : StandsFor types name d ↔ d = t := by
  constructor
  · rintro ⟨leaf, hpath, hd, -⟩
    rcases hpath.cases_head with rfl | ⟨b, ⟨u, hu, ref, href, -⟩, -⟩
    · rw [hfind] at hd
      exact (Option.some.inj hd).symm
    · rw [hfind] at hu
      cases hu
      simp [subtypes_eq_nil ht] at href
  · rintro rfl
    exact ⟨name, .refl, hfind, ht⟩

lemma StandsFor.mem (h : StandsFor types name d) : d ∈ types := by
  obtain ⟨leaf, -, hd, -⟩ := h
  exact List.mem_of_find?_eq_some hd

/-- What is reached from a name that is reached. -/
lemma StandsFor.of_reflTransGen (hpath : Relation.ReflTransGen (Refers types) name other)
    (h : StandsFor types other d) : StandsFor types name d := by
  obtain ⟨leaf, hleaf, hd⟩ := h
  exact ⟨leaf, hpath.trans hleaf, hd⟩

end

/-! ## Expansion -/

/-- What the definitions that a name stands for declare in one place, merged. -/
def expand (pick : NodeType → Option FieldSpec) (types : List NodeType) (name : String) :
    Option FieldSpec :=
  match h : types.find? (fun t => t.name = name) with
  | none => none
  | some t =>
    if t.isSupertype then
      have := length_without_lt h
      t.subtypes.foldl
        (fun spec ref => mergeChildren spec (expand pick (without types name) ref.name)) none
    else pick t
termination_by types.length

/-- The declarations that the definitions make for which a name stands. -/
def declared (pick : NodeType → Option FieldSpec) (types : List NodeType) (name : String) :
    Set FieldSpec := {a | ∃ d, StandsFor types name d ∧ pick d = some a}

section

variable {pick : NodeType → Option FieldSpec} {types : List NodeType} {name : String}

lemma mem_declared {a : FieldSpec} :
    a ∈ declared pick types name ↔ ∃ d, StandsFor types name d ∧ pick d = some a := Iff.rfl

/-- **Expansion is the union over what can be reached.** -/
theorem unites_expand (horder : ∀ t ∈ types, ∀ spec ∈ pick t, TypeRef.InOrder spec.types)
    (name : String) : FieldSpec.Unites (declared pick types name) (expand pick types name) := by
  fun_induction expand pick types name with
  | case1 types name hnone =>
    refine Set.eq_empty_of_forall_notMem ?_
    rintro a ⟨d, hd, -⟩
    exact not_standsFor hnone hd
  | case2 types name t hfind ht _ ih =>
    have hsub : ∀ u ∈ without types name, ∀ spec ∈ pick u, TypeRef.InOrder spec.types :=
      fun u hu => horder u (List.mem_of_mem_filter hu)
    have hnil : FieldSpec.Unites ∅ none := rfl
    have hfold := hnil.foldl_mergeChildren fun ref (_ : ref ∈ t.subtypes) => ih ref hsub
    have hsets : declared pick types name =
        ∅ ∪ ⋃ ref ∈ t.subtypes, declared pick (without types name) ref.name := by
      ext a
      simp only [mem_declared, Set.empty_union, Set.mem_iUnion, exists_prop,
        standsFor_iff_of_supertype hfind ht]
      constructor
      · rintro ⟨d, ⟨ref, href, hd⟩, hpick⟩
        exact ⟨ref, href, d, hd, hpick⟩
      · rintro ⟨ref, href, d, hd, hpick⟩
        exact ⟨d, ⟨ref, href, hd⟩, hpick⟩
    rw [hsets]
    exact hfold
  | case3 types name t hfind ht =>
    have hleaf : t.isSupertype = false := Bool.eq_false_iff.2 ht
    have hmem : ∀ a, a ∈ declared pick types name ↔ pick t = some a := fun a => by
      simp only [mem_declared, standsFor_iff_of_leaf hfind hleaf, exists_eq_left]
    cases hpick : pick t with
    | none => exact Set.eq_empty_of_forall_notMem fun a ha => by simp [hmem, hpick] at ha
    | some spec =>
      have hset : declared pick types name = {spec} := by
        ext a
        rw [hmem, hpick, Option.some.injEq, Set.mem_singleton_iff, eq_comm]
      rw [hset]
      exact FieldSpec.IsUnion.singleton (horder t (List.mem_of_find?_eq_some hfind) spec hpick)

end

section

variable {pick : NodeType → Option FieldSpec} {types : List NodeType} {name f : String}
  {t : NodeType}

lemma expand_of_none (h : types.find? (fun t => t.name = name) = none) :
    expand pick types name = none := by
  rw [expand]
  split
  · rfl
  · next hsome => simp [h] at hsome

lemma expand_of_supertype (h : types.find? (fun t => t.name = name) = some t)
    (ht : t.isSupertype = true) : expand pick types name = t.subtypes.foldl
      (fun spec ref => mergeChildren spec (expand pick (without types name) ref.name)) none := by
  rw [expand]
  split
  · next hnone => simp [h] at hnone
  · next hsome =>
    rw [h] at hsome
    cases hsome
    rw [if_pos ht]

lemma expand_of_leaf (h : types.find? (fun t => t.name = name) = some t)
    (ht : t.isSupertype = false) : expand pick types name = pick t := by
  rw [expand]
  split
  · next hnone => simp [h] at hnone
  · next hsome =>
    rw [h] at hsome
    cases hsome
    rw [if_neg (Bool.not_eq_true _ ▸ ht)]

lemma expandChildren_eq (types : List NodeType) (name : String) :
    expandChildren types name = expand children types name := by
  fun_induction expandChildren types name with
  | case1 types name hnone => rw [expand_of_none hnone]
  | case2 types name t hfind ht _ ih => simp only [ih, expand_of_supertype hfind ht]
  | case3 types name t hfind ht => rw [expand_of_leaf hfind (Bool.eq_false_iff.2 ht)]

/-- Merging one list of fields after another gives every field once. -/
lemma nodup_foldl_mergeFields {ι : Type} {xs : List ι} {g : ι → Fields} {fields : Fields}
    (h : (fields.map Prod.fst).Nodup) :
    ((xs.foldl (fun fields x => mergeFields fields (g x)) fields).map Prod.fst).Nodup := by
  induction xs generalizing fields with
  | nil => exact h
  | cons x rest ih => exact ih (nodup_mergeFields h)

lemma lookup_foldl_mergeFields {ι : Type} {xs : List ι} {g : ι → Fields} {fields : Fields}
    (h : ∀ x ∈ xs, ((g x).map Prod.fst).Nodup) :
    (xs.foldl (fun fields x => mergeFields fields (g x)) fields).lookup f =
      xs.foldl (fun spec x => mergeChildren spec ((g x).lookup f)) (fields.lookup f) := by
  induction xs generalizing fields with
  | nil => rfl
  | cons x rest ih =>
    rw [List.foldl_cons, ih fun y hy => h y (List.mem_cons_of_mem x hy),
      lookup_mergeFields (h x List.mem_cons_self), List.foldl_cons]

/-- The fields of a node type have different names. -/
lemma nodup_expandFields (h : ∀ t ∈ types, (t.fields.map Prod.fst).Nodup) :
    ((expandFields types name).map Prod.fst).Nodup := by
  fun_induction expandFields types name with
  | case1 types name hnone => exact List.nodup_nil
  | case2 types name t hfind ht _ ih => exact nodup_foldl_mergeFields List.nodup_nil
  | case3 types name t hfind ht => exact h t (List.mem_of_find?_eq_some hfind)

/-- The fields of a node type are expanded name by name. -/
lemma lookup_expandFields (h : ∀ t ∈ types, (t.fields.map Prod.fst).Nodup) :
    (expandFields types name).lookup f = expand (fun t => t.fields.lookup f) types name := by
  fun_induction expandFields types name with
  | case1 types name hnone => rw [expand_of_none hnone, List.lookup_nil]
  | case2 types name t hfind ht _ ih =>
    have hsub : ∀ u ∈ without types name, (u.fields.map Prod.fst).Nodup :=
      fun u hu => h u (List.mem_of_mem_filter hu)
    rw [lookup_foldl_mergeFields fun ref _ => nodup_expandFields hsub, List.lookup_nil,
      expand_of_supertype hfind ht]
    simp only [ih _ hsub]
  | case3 types name t hfind ht => rw [expand_of_leaf hfind (Bool.eq_false_iff.2 ht)]

end

end NodeType

end TreeDiff
