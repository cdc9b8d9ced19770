/-
# Unions of declarations

Several declarations of one field are merged into one: it allows what any of them allows, and it
requires what all of them require.  The types that a declaration allows are a set, kept as a list in
order, so merged declarations are equal as soon as they allow and require the same.  Merging is
therefore the same in any order, and merging a declaration again changes nothing; all of this is
said at once by describing the result through the set of the declarations that went into it.
-/
import Mathlib.Data.List.Nodup
import Mathlib.Data.Prod.Lex
import Mathlib.Data.Set.Lattice
import TreeDiff.Proofs.TextOrder
import TreeDiff.Schema.Expansion

namespace TreeDiff

/-! ## Sets of references -/

namespace TypeRef

/-- What the order of references depends on, the more important part first. -/
def rank (r : TypeRef) : String ×ₗ Bool := toLex (r.name, r.named)

lemma rank_inj {a b : TypeRef} : a.rank = b.rank ↔ a = b := by
  cases a
  cases b
  simp [rank]

lemma before_iff {a b : TypeRef} : a.before b = true ↔ a.rank < b.rank := by
  simp only [before, rank, Prod.Lex.toLex_lt_toLex, Bool.or_eq_true, Bool.and_eq_true,
    beq_iff_eq, Text.before_iff, Bool.not_eq_true', Bool.lt_iff, and_assoc]

/-- References in order, each of them once. -/
def InOrder (refs : List TypeRef) : Prop := refs.Pairwise fun a b => a.before b = true

variable {r ref : TypeRef} {refs : List TypeRef}

@[simp] lemma mem_insert : r ∈ insert ref refs ↔ r = ref ∨ r ∈ refs := by
  induction refs with
  | nil => simp [insert]
  | cons s rest ih =>
    rw [insert]
    split
    · next heq =>
      subst heq
      simp
    · split
      · simp
      · rw [List.mem_cons, List.mem_cons, ih, or_left_comm]

lemma InOrder.insert (h : InOrder refs) : InOrder (insert ref refs) := by
  induction refs with
  | nil => exact List.pairwise_singleton _ _
  | cons s rest ih =>
    obtain ⟨hs, hrest⟩ := List.pairwise_cons.1 h
    rw [TypeRef.insert]
    split
    · exact h
    · next hne =>
      split
      · next hbefore =>
        refine List.pairwise_cons.2 ⟨fun x hx => ?_, h⟩
        rcases List.mem_cons.1 hx with rfl | hx
        · exact hbefore
        · exact before_iff.2 ((before_iff.1 hbefore).trans (before_iff.1 (hs x hx)))
      · next hbefore =>
        refine List.pairwise_cons.2 ⟨fun x hx => ?_, ih hrest⟩
        rcases mem_insert.1 hx with rfl | hx
        · -- different references are ranked differently, so one comes before the other
          rw [before_iff] at hbefore ⊢
          exact lt_of_le_of_ne (not_lt.1 hbefore) fun heq => hne (rank_inj.1 heq.symm)
        · exact hs x hx

@[simp] lemma mem_setOf : r ∈ setOf refs ↔ r ∈ refs := by
  induction refs with
  | nil => simp [setOf]
  | cons s rest ih =>
    rw [setOf, List.foldr_cons, mem_insert, ← setOf, ih, List.mem_cons]

lemma inOrder_setOf (refs : List TypeRef) : InOrder (setOf refs) := by
  induction refs with
  | nil => exact List.Pairwise.nil
  | cons s rest ih => exact ih.insert

/-- References in order are determined by which they are. -/
lemma InOrder.eq_of_mem_iff {others : List TypeRef} (h : InOrder refs) (h' : InOrder others)
    (hmem : ∀ r, r ∈ refs ↔ r ∈ others) : refs = others := by
  have hirrefl : ∀ {a b : TypeRef}, a.before b = true → a ≠ b := by
    rintro a b hab rfl
    exact lt_irrefl _ (before_iff.1 hab)
  have hperm := (List.perm_ext_iff_of_nodup (h.imp hirrefl) (h'.imp hirrefl)).2 hmem
  refine hperm.eq_of_pairwise (fun a b _ _ hab hba => ?_) h h'
  exact absurd (before_iff.1 hab) (lt_asymm (before_iff.1 hba))

end TypeRef

/-! ## Unions -/

namespace FieldSpec

/-- What a set of declarations of one field says together. -/
structure IsUnion (declared : Set FieldSpec) (spec : FieldSpec) : Prop where
  nonempty : declared.Nonempty
  /-- The types are a set. -/
  inOrder : TypeRef.InOrder spec.types
  /-- A type is allowed if some declaration allows it. -/
  mem_types : ∀ ref, ref ∈ spec.types ↔ ∃ a ∈ declared, ref ∈ a.types
  /-- Many are allowed if some declaration allows many. -/
  multiple_iff : spec.multiple = true ↔ ∃ a ∈ declared, a.multiple = true
  /-- The field is required if every declaration requires it. -/
  required_iff : spec.required = true ↔ ∀ a ∈ declared, a.required = true

namespace IsUnion

variable {A B : Set FieldSpec} {a b : FieldSpec}

/-- A set of declarations has only one union. -/
lemma eq (ha : IsUnion A a) (hb : IsUnion A b) : a = b := by
  have htypes : a.types = b.types := ha.inOrder.eq_of_mem_iff hb.inOrder fun r => by
    rw [ha.mem_types, hb.mem_types]
  have hmultiple : a.multiple = b.multiple := by
    rw [Bool.eq_iff_iff, ha.multiple_iff, hb.multiple_iff]
  have hrequired : a.required = b.required := by
    rw [Bool.eq_iff_iff, ha.required_iff, hb.required_iff]
  cases a
  cases b
  simp_all

lemma singleton (h : TypeRef.InOrder a.types) : IsUnion {a} a :=
  ⟨Set.singleton_nonempty a, h, by simp, by simp, by simp⟩

/-- Merging is a union. -/
lemma merge (ha : IsUnion A a) (hb : IsUnion B b) : IsUnion (A ∪ B) (a.merge b) where
  nonempty := ha.nonempty.mono Set.subset_union_left
  inOrder := TypeRef.inOrder_setOf _
  mem_types ref := by
    simp only [FieldSpec.merge, TypeRef.mem_setOf, List.mem_append, ha.mem_types, hb.mem_types,
      Set.mem_union, or_and_right, exists_or]
  multiple_iff := by
    simp only [FieldSpec.merge, Bool.or_eq_true, ha.multiple_iff, hb.multiple_iff, Set.mem_union,
      or_and_right, exists_or]
  required_iff := by
    simp only [FieldSpec.merge, Bool.and_eq_true, ha.required_iff, hb.required_iff, Set.mem_union,
      or_imp, forall_and]

end IsUnion

/-- What a set of declarations, which may be empty, says together. -/
def Unites (declared : Set FieldSpec) : Option FieldSpec → Prop
  | none => declared = ∅
  | some spec => IsUnion declared spec

namespace Unites

variable {A B : Set FieldSpec} {a b : Option FieldSpec}

lemma eq (ha : Unites A a) (hb : Unites A b) : a = b := by
  cases a with
  | none =>
    cases b with
    | none => rfl
    | some spec =>
      have hempty : A = ∅ := ha
      exact absurd hempty hb.nonempty.ne_empty
  | some spec =>
    cases b with
    | none =>
      have hempty : A = ∅ := hb
      exact absurd hempty ha.nonempty.ne_empty
    | some spec' => rw [IsUnion.eq ha hb]

lemma mergeChildren (ha : Unites A a) (hb : Unites B b) :
    Unites (A ∪ B) (mergeChildren a b) := by
  cases a with
  | none =>
    have hA : A = ∅ := ha
    rw [hA, Set.empty_union]
    exact hb
  | some spec =>
    cases b with
    | none =>
      have hB : B = ∅ := hb
      rw [hB, Set.union_empty]
      exact ha
    | some spec' => exact IsUnion.merge ha hb

/-- Merging one after another is a union. -/
lemma foldl_mergeChildren {ι : Type} {xs : List ι} {C : ι → Set FieldSpec}
    {g : ι → Option FieldSpec} (ha : Unites A a) (h : ∀ x ∈ xs, Unites (C x) (g x)) :
    Unites (A ∪ ⋃ x ∈ xs, C x) (xs.foldl (fun spec x => TreeDiff.mergeChildren spec (g x)) a) := by
  induction xs generalizing A a with
  | nil =>
    simp only [List.not_mem_nil, Set.iUnion_of_empty, Set.iUnion_empty, Set.union_empty]
    exact ha
  | cons x rest ih =>
    have hstep := ih (ha.mergeChildren (h x List.mem_cons_self)) fun y hy =>
      h y (List.mem_cons_of_mem x hy)
    have hsets : (⋃ y ∈ x :: rest, C y) = C x ∪ ⋃ y ∈ rest, C y := by
      ext spec
      simp only [List.mem_cons, Set.mem_iUnion, Set.mem_union, exists_prop, or_and_right, exists_or,
        exists_eq_left]
    rw [hsets, ← Set.union_assoc]
    exact hstep

end Unites

end FieldSpec

/-! ## Looking up merged fields -/

section

variable {fields more : Fields} {entry : String × FieldSpec} {f : String}

lemma lookup_put : (mergeFields.put fields entry).lookup f =
    if f = entry.1 then mergeChildren (fields.lookup f) (some entry.2) else fields.lookup f := by
  obtain ⟨key, value⟩ := entry
  induction fields with
  | nil =>
    by_cases hf : f = key
    · subst hf
      simp [mergeFields.put, mergeChildren]
    · simp [mergeFields.put, List.lookup_cons, hf, beq_eq_false_iff_ne.2 hf]
  | cons field rest ih =>
    obtain ⟨name, spec⟩ := field
    by_cases hname : name = key
    · subst hname
      by_cases hf : f = name
      · subst hf
        simp [mergeFields.put, mergeChildren]
      · simp [mergeFields.put, List.lookup_cons, beq_eq_false_iff_ne.2 hf, hf]
    · by_cases hf : f = name
      · subst hf
        simp [mergeFields.put, hname]
      · simp [mergeFields.put, List.lookup_cons, hname, beq_eq_false_iff_ne.2 hf, ih]

/-- **Fields are merged name by name.** -/
theorem lookup_mergeFields (h : (more.map Prod.fst).Nodup) :
    (mergeFields fields more).lookup f = mergeChildren (fields.lookup f) (more.lookup f) := by
  induction more generalizing fields with
  | nil => cases hl : fields.lookup f <;> simp [mergeFields, mergeChildren, hl]
  | cons entry rest ih =>
    rw [List.map_cons, List.nodup_cons] at h
    have hstep : mergeFields fields (entry :: rest) =
        mergeFields (mergeFields.put fields entry) rest := rfl
    rw [hstep, ih h.2, lookup_put]
    obtain ⟨name, spec⟩ := entry
    by_cases hf : f = name
    · subst hf
      -- the name does not come again
      have hnone : rest.lookup f = none := by
        rw [List.lookup_eq_none_iff]
        intro p hp
        rw [bne_iff_ne]
        intro heq
        exact h.1 (List.mem_map.2 ⟨p, hp, heq.symm⟩)
      simp only [if_true, hnone, List.lookup_cons_self]
      cases fields.lookup f <;> rfl
    · rw [if_neg hf, List.lookup_cons, beq_eq_false_iff_ne.2 hf]

lemma map_fst_put : (mergeFields.put fields entry).map Prod.fst =
    if entry.1 ∈ fields.map Prod.fst then fields.map Prod.fst
    else fields.map Prod.fst ++ [entry.1] := by
  induction fields with
  | nil => simp [mergeFields.put]
  | cons field rest ih =>
    obtain ⟨name, spec⟩ := field
    by_cases hname : name = entry.1
    · simp [mergeFields.put, hname]
    · rw [mergeFields.put, if_neg hname, List.map_cons, List.map_cons, ih]
      by_cases hmem : entry.1 ∈ rest.map Prod.fst
      · rw [if_pos hmem, if_pos (List.mem_cons_of_mem _ hmem)]
      · rw [if_neg hmem, if_neg fun h => hmem ((List.mem_cons.1 h).resolve_left (Ne.symm hname)),
          List.cons_append]

/-- Merging gives every field once. -/
lemma nodup_mergeFields (h : (fields.map Prod.fst).Nodup) :
    ((mergeFields fields more).map Prod.fst).Nodup := by
  induction more generalizing fields with
  | nil => exact h
  | cons entry rest ih =>
    refine ih ?_
    rw [map_fst_put]
    split
    · exact h
    · next hnew =>
      rw [← List.concat_eq_append]
      exact h.concat hnew

end

end TreeDiff
