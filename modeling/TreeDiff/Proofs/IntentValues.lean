/-
# The values of intents

Which text extraction gives for an intent of a node, from the fields and the children that the
schema allows and the children that the node has.  A field that is declared decides, even when the
node does not fill it.
-/
import Mathlib.Data.List.Nodup
import Mathlib.Tactic.Lemma
import TreeDiff.Extraction
import TreeDiff.Proofs.Supertypes

namespace TreeDiff

/-- The names of the types that may stand among positional children. -/
def FieldSpec.typeNames (children : Option FieldSpec) : List String :=
  children.elim [] fun spec => spec.types.map (·.name)

/-! ## Bindings -/

namespace Intent

/-- Whether a name is the first candidate of an intent that is a field. -/
def TakesField (intent : Intent) (fields : Fields) (f : String) : Prop :=
  ∃ before after, intent.candidates = before ++ f :: after ∧ f ∈ fields.map Prod.fst ∧
    ∀ c ∈ before, c ∉ fields.map Prod.fst

/-- Whether no candidate of an intent is a field and a name is its only candidate that is the name
of a type that may stand among the children. -/
def TakesPosition (intent : Intent) (fields : Fields) (children : Option FieldSpec)
    (type : String) : Prop :=
  (∀ c ∈ intent.candidates, c ∉ fields.map Prod.fst) ∧
    type ∈ intent.candidates ∧ type ∈ FieldSpec.typeNames children ∧
    ∀ c ∈ intent.candidates, c ∈ FieldSpec.typeNames children → c = type

variable {intent : Intent} {fields : Fields} {children : Option FieldSpec} {name : String}

lemma mem_all (intent : Intent) : intent ∈ all := by cases intent <;> decide

lemma nodup_names : (all.map Intent.name).Nodup := by decide

lemma nodup_candidates (intent : Intent) : intent.candidates.Nodup := by cases intent <;> decide

lemma any_field_iff : (fields.any fun entry => entry.1 = name) = true ↔
    name ∈ fields.map Prod.fst := by
  simp [List.any_eq_true]

lemma filter_eq_singleton_iff {α : Type} {xs : List α} {p : α → Bool} {a : α} (h : xs.Nodup) :
    xs.filter p = [a] ↔ a ∈ xs ∧ p a = true ∧ ∀ b ∈ xs, p b = true → b = a := by
  constructor
  · intro hfilter
    have hmem : ∀ b, b ∈ xs ∧ p b = true ↔ b = a := fun b => by
      rw [← List.mem_filter, hfilter, List.mem_singleton]
    obtain ⟨ha, hp⟩ := (hmem a).2 rfl
    exact ⟨ha, hp, fun b hb hpb => (hmem b).1 ⟨hb, hpb⟩⟩
  · rintro ⟨ha, hp, hunique⟩
    have hperm : (xs.filter p).Perm [a] := by
      refine (List.perm_ext_iff_of_nodup (h.filter p) (List.nodup_singleton a)).2 fun b => ?_
      rw [List.mem_filter, List.mem_singleton]
      constructor
      · rintro ⟨hb, hpb⟩
        exact hunique b hb hpb
      · rintro rfl
        exact ⟨ha, hp⟩
    exact List.perm_singleton.1 hperm

lemma bind?_eq_field_iff :
    intent.bind? fields children = some (.field name) ↔ intent.TakesField fields name := by
  have hfind : (intent.candidates.find? fun c => fields.any fun entry => entry.1 = c) = some name ↔
      intent.TakesField fields name := by
    simp only [List.find?_eq_some_iff_append, any_field_iff, Bool.not_eq_true',
      ← Bool.not_eq_true, TakesField]
    constructor
    · rintro ⟨hname, before, after, hsplit, hbefore⟩
      exact ⟨before, after, hsplit, hname, hbefore⟩
    · rintro ⟨before, after, hsplit, hname, hbefore⟩
      exact ⟨hname, before, after, hsplit, hbefore⟩
  rw [← hfind, bind?.eq_def]
  split
  · next f hf => simp [hf]
  · next hnone =>
    rw [hnone]
    split
    · simp
    · split <;> simp

lemma bind?_eq_positional_iff :
    intent.bind? fields children = some (.positional name) ↔
      intent.TakesPosition fields children name := by
  have hnone : (intent.candidates.find? fun c => fields.any fun entry => entry.1 = c) = none ↔
      ∀ c ∈ intent.candidates, c ∉ fields.map Prod.fst := by
    simp only [List.find?_eq_none, any_field_iff]
  rw [TakesPosition, ← hnone, bind?.eq_def]
  split
  · next f hf => simp [hf]
  · next hfind =>
    rw [hfind]
    rcases children with _ | spec
    · simp [FieldSpec.typeNames]
    · have hallows : ∀ c, spec.allowsName c = true ↔ c ∈ FieldSpec.typeNames (some spec) := by
        simp [FieldSpec.allowsName, FieldSpec.typeNames]
      have hfilter : intent.candidates.filter spec.allowsName = [name] ↔
          name ∈ intent.candidates ∧ name ∈ FieldSpec.typeNames (some spec) ∧
            ∀ c ∈ intent.candidates, c ∈ FieldSpec.typeNames (some spec) → c = name := by
        simp only [filter_eq_singleton_iff (nodup_candidates intent), hallows]
      rw [← hfilter]
      simp only [true_and]
      split
      · next found hfound => simp [hfound]
      · next hmany =>
        simp only [reduceCtorEq, false_iff]
        exact fun hsingle => hmany name hsingle

end Intent

namespace Schema

variable {s : Schema} {type : String} {i : Intent} {b : Binding}

lemma mem_bindings : (i, b) ∈ s.bindings type ↔
    i.bind? (s.fields type) (s.children type) = some b := by
  simp only [bindings, List.mem_filterMap, Option.map_eq_some_iff, Prod.mk.injEq]
  constructor
  · rintro ⟨j, -, b', hb, rfl, rfl⟩
    exact hb
  · intro hb
    exact ⟨i, Intent.mem_all i, b, hb, rfl, rfl⟩

/-- A node type without a definition has no bindings. -/
lemma bindings_of_undefined (h : s.contains type = false) : s.bindings type = [] := by
  have hfind : s.types.find? (fun t => t.name = type) = none := by
    simpa [contains, get?] using h
  have hfields : s.fields type = [] := by
    rw [fields, NodeType.expandFields]
    split
    · rfl
    · next hsome => simp [hfind] at hsome
  have hchildren : s.children type = none := by
    rw [children, NodeType.expandChildren_eq, NodeType.expand_of_none hfind]
  rw [bindings, hfields, hchildren, List.filterMap_eq_nil_iff]
  intro i _
  cases i <;> rfl

end Schema

namespace Resolver

lemma lookup_map_pair {names : List String} {β : Type} {f : String → β} {name : String} :
    (names.map fun n => (n, f n)).lookup name = if name ∈ names then some (f name) else none := by
  induction names with
  | nil => simp
  | cons n rest ih =>
    by_cases h : name = n
    · subst h
      simp
    · rw [List.map_cons, List.lookup_cons, beq_eq_false_iff_ne.2 h]
      simp [ih, h]

/-- **The table answers as the schema does**, also about names that it does not hold. -/
theorem bindings_ofSchema (s : Schema) (type : String) :
    (ofSchema s).bindings type = s.bindings type := by
  rw [bindings, ofSchema, lookup_map_pair]
  split
  · rfl
  · next hnew =>
    -- only names with a definition are in the table
    have hundefined : s.contains type = false := by
      simp only [Schema.names, List.mem_map, not_exists, not_and] at hnew
      simpa [Schema.contains, Schema.get?] using hnew
    rw [Schema.bindings_of_undefined hundefined, Option.getD_none]

end Resolver

/-! ## Values -/

lemma map_filterMap_sublist {α β γ : Type} {f : α → Option β} {g : β → γ} {k : α → γ}
    (h : ∀ a b, f a = some b → g b = k a) (xs : List α) :
    ((xs.filterMap f).map g).Sublist (xs.map k) := by
  induction xs with
  | nil => exact List.Sublist.slnil
  | cons a rest ih =>
    rw [List.map_cons]
    cases hf : f a with
    | none =>
      rw [List.filterMap_cons_none hf]
      exact ih.cons _
    | some b =>
      rw [List.filterMap_cons_some hf, List.map_cons, h a b hf]
      exact ih.cons_cons _

namespace Node

variable {s : Schema} {node : Node} {i : Intent} {v : String}

/-- Whether a child is the first named one of a type. -/
def IsFirstNamed (node : Node) (type : String) (child : Node) : Prop :=
  ∃ before after, node.children = before ++ child :: after ∧
    child.named = true ∧ child.type = type ∧ ∀ c ∈ before, c.named = true → c.type ≠ type

lemma boundChild_positional_iff {type : String} {child : Node} :
    node.boundChild (.positional type) = some child ↔ node.IsFirstNamed type child := by
  simp only [boundChild, List.find?_eq_some_iff_append, Bool.and_eq_true, decide_eq_true_eq,
    Bool.not_eq_true', Bool.and_eq_false_imp, decide_eq_false_iff_not, IsFirstNamed]
  constructor
  · rintro ⟨⟨hnamed, htype⟩, before, after, hsplit, hbefore⟩
    exact ⟨before, after, hsplit, hnamed, htype, hbefore⟩
  · rintro ⟨before, after, hsplit, hnamed, htype, hbefore⟩
    exact ⟨⟨hnamed, htype⟩, before, after, hsplit, hbefore⟩

lemma mem_intents : (i, v) ∈ node.intents s ↔
    ∃ b, i.bind? (s.fields node.type) (s.children node.type) = some b ∧
      ∃ child, node.boundChild b = some child ∧ child.text = v := by
  simp only [intents, List.mem_filterMap, Option.map_eq_some_iff, Prod.mk.injEq, Prod.exists,
    Schema.mem_bindings]
  constructor
  · rintro ⟨j, b, hb, child, hchild, rfl, hv⟩
    exact ⟨b, hb, child, hchild, hv⟩
  · rintro ⟨b, hb, child, hchild, hv⟩
    exact ⟨i, b, hb, child, hchild, rfl, hv⟩

/-- Each intent has at most one value. -/
lemma nodup_intents : ((node.intents s).map fun p => p.1.name).Nodup := by
  have hbound : ((s.bindings node.type).map fun p => p.1.name).Sublist
      (Intent.all.map Intent.name) := by
    refine map_filterMap_sublist (fun i p h => ?_) _
    obtain ⟨b, -, rfl⟩ := Option.map_eq_some_iff.1 h
    rfl
  have hfilled : ((node.intents s).map fun p => p.1.name).Sublist
      ((s.bindings node.type).map fun p => p.1.name) := by
    refine map_filterMap_sublist (fun p q h => ?_) _
    obtain ⟨child, -, rfl⟩ := Option.map_eq_some_iff.1 h
    rfl
  exact Intent.nodup_names.sublist (hfilled.trans hbound)

end Node

/-- What extraction says of a node. -/
structure Extracts (s : Schema) (limit : Option Int) (node : Node) : Prop where
  /-- An intent has the text of the child in the first of its fields that the type of the node has,
  and if it has none of them, that of the first child of the only type that it takes by position. -/
  mem_iff (i : Intent) (v : String) : (i, v) ∈ (Extractor.extract ⟨s, limit⟩ node).intents ↔
    (∃ f, i.TakesField (s.fields node.type) f ∧
      ∃ child, node.childForField f = some child ∧ child.text = v) ∨
    ∃ type, i.TakesPosition (s.fields node.type) (s.children node.type) type ∧
      ∃ child, node.IsFirstNamed type child ∧ child.text = v
  nodup : (((Extractor.extract ⟨s, limit⟩ node).intents).map fun p => p.1.name).Nodup
  /-- A type that the schema does not define has nothing. -/
  undefined (h : s.contains node.type = false) : (Extractor.extract ⟨s, limit⟩ node).intents = []
  /-- What has been resolved beforehand is what the schema says of each type. -/
  bindings (type : String) : (Resolver.ofSchema s).bindings type = s.bindings type
  resolve (type : String) : (Resolver.ofSchema s).resolve type = s.resolve type

/-- **What extraction says of a node.**  Texts are never cut, whatever the limit. -/
theorem mem_extract_intents_iff (s : Schema) (limit : Option Int) (node : Node) :
    Extracts s limit node := by
  refine ⟨fun i v => ?_, Node.nodup_intents, fun hundefined => ?_, Resolver.bindings_ofSchema s,
    fun type => ?_⟩
  · rw [Extractor.extract, Node.mem_intents]
    constructor
    · rintro ⟨b, hb, child, hchild, hv⟩
      cases b with
      | field f => exact Or.inl ⟨f, Intent.bind?_eq_field_iff.1 hb, child, hchild, hv⟩
      | positional type =>
        exact Or.inr ⟨type, Intent.bind?_eq_positional_iff.1 hb, child,
          Node.boundChild_positional_iff.1 hchild, hv⟩
    · rintro (⟨f, hf, child, hchild, hv⟩ | ⟨type, htype, child, hchild, hv⟩)
      · exact ⟨.field f, Intent.bind?_eq_field_iff.2 hf, child, hchild, hv⟩
      · exact ⟨.positional type, Intent.bind?_eq_positional_iff.2 htype, child,
          Node.boundChild_positional_iff.2 hchild, hv⟩
  · rw [Extractor.extract, Node.intents, Schema.bindings_of_undefined hundefined,
      List.filterMap_nil]
  · rw [Resolver.resolve, Resolver.bindings_ofSchema, Schema.resolve]

/-- A field that is declared and not filled has no value, although a child of the type is there. -/
example : Node.intents
    ⟨none, [⟨"function", true, [("name", ⟨[⟨"identifier", true⟩], false, false⟩)],
      some ⟨[⟨"identifier", true⟩], false, false⟩, []⟩]⟩
    ⟨"function", "f()", true, ⟨0, 0⟩, ⟨0, 3⟩, none,
      [⟨"identifier", "f", true, ⟨0, 0⟩, ⟨0, 1⟩, none, []⟩]⟩ = [] := by decide +kernel

end TreeDiff
