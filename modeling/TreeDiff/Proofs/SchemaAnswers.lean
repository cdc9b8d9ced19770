/-
# What a schema says of node types

A schema answers about the fields and the children of a node type with the union of what the
definitions declare for which its name stands.  So the answer does not depend on the order in which
subtypes are listed, and abstract node types that stand for each other are answered alike.
-/
import TreeDiff.Proofs.DistinctNames
import TreeDiff.Proofs.Reading
import TreeDiff.Proofs.SchemaIndex
import TreeDiff.Proofs.Supertypes
import TreeDiff.Schema.Reader

namespace TreeDiff

/-! ## Definitions as they are read -/

/-- A definition that declares each field once and gives allowed types as sets. -/
structure NodeType.WellFormed (d : NodeType) : Prop where
  nodup_fields : (d.fields.map Prod.fst).Nodup
  inOrder_fields : ∀ field ∈ d.fields, TypeRef.InOrder field.2.types
  inOrder_children : ∀ spec ∈ d.children, TypeRef.InOrder spec.types

namespace Schema

section

variable {slot : Slot} {json : Json} {spec : FieldSpec} {members : List (String × Json)}
  {fields : Fields} {name : String} {d : NodeType} {definitions : List NodeType}

lemma inOrder_of_readSpec (h : readSpec slot json = .ok spec) : TypeRef.InOrder spec.types := by
  rw [readSpec.eq_def] at h
  split at h
  · split at h
    · obtain ⟨multiple, -, h⟩ := exists_of_bind_eq_ok h
      obtain ⟨required, -, h⟩ := exists_of_bind_eq_ok h
      obtain ⟨refs, -, h⟩ := exists_of_bind_eq_ok h
      cases h
      exact TypeRef.inOrder_setOf refs
    · cases h
  · cases h

lemma readFields_ok (hnames : (Json.obj members).hasDistinctNames = true)
    (h : readFields (members.lookup name) = .ok fields) :
    (fields.map Prod.fst).Nodup ∧ ∀ field ∈ fields, TypeRef.InOrder field.2.types := by
  cases hlookup : members.lookup name with
  | none =>
    rw [hlookup] at h
    cases h
    simp
  | some json =>
    have hjson := Json.hasDistinctNames_of_lookup hnames hlookup
    rw [hlookup] at h
    cases json with
    | null =>
      cases h
      simp
    | obj specs =>
      have hmap : fields.map Prod.fst = specs.map Prod.fst := by
        refine map_eq_of_mapM h fun member field hfield => ?_
        obtain ⟨spec, -, rfl⟩ := map_eq_ok_iff.1 hfield
        rfl
      refine ⟨hmap ▸ (Json.hasDistinctNames_obj.1 hjson).1, fun field hfield => ?_⟩
      obtain ⟨member, -, hmember⟩ := exists_of_mem_mapM h hfield
      obtain ⟨spec, hspec, rfl⟩ := map_eq_ok_iff.1 hmember
      exact inOrder_of_readSpec hspec
    | bool b => cases h
    | int n => cases h
    | float x => cases h
    | str s => cases h
    | arr items => cases h

lemma readChildren_ok {children : Option FieldSpec} {given : Option Json}
    (h : readChildren given = .ok children) :
    ∀ spec ∈ children, TypeRef.InOrder spec.types := by
  rw [readChildren.eq_def] at h
  split at h
  · cases h
    simp
  · cases h
    simp
  · obtain ⟨spec, hspec, heq⟩ := map_eq_ok_iff.1 h
    cases heq
    intro spec' hmem
    cases hmem
    exact inOrder_of_readSpec hspec

lemma wellFormed_of_readBody (hnames : (Json.obj members).hasDistinctNames = true)
    (h : readBody name members = .ok d) : d.WellFormed := by
  rw [readBody] at h
  obtain ⟨named, -, h⟩ := exists_of_bind_eq_ok h
  obtain ⟨fields, hfields, h⟩ := exists_of_bind_eq_ok h
  obtain ⟨children, hchildren, h⟩ := exists_of_bind_eq_ok h
  obtain ⟨subtypes, -, h⟩ := exists_of_bind_eq_ok h
  cases h
  obtain ⟨hnodup, horder⟩ := readFields_ok hnames hfields
  exact ⟨hnodup, horder, readChildren_ok hchildren⟩

lemma wellFormed_of_readDescriptor {index : Nat} (hnames : json.hasDistinctNames = true)
    (h : readDescriptor index json = .ok d) : d.WellFormed := by
  rw [readDescriptor.eq_def] at h
  split at h
  · split at h
    · split at h
      · cases h
      · exact wellFormed_of_readBody hnames (mapError_eq_ok_iff.1 h)
    · cases h
  · cases h

lemma wellFormed_of_readDescriptors {index : Nat} {items : List Json}
    (hnames : ∀ json ∈ items, json.hasDistinctNames = true)
    (h : readDescriptors index items = .ok definitions) : ∀ d ∈ definitions, d.WellFormed := by
  induction items generalizing index definitions with
  | nil =>
    cases h
    simp
  | cons json rest ih =>
    rw [readDescriptors] at h
    obtain ⟨d, hd, h⟩ := exists_of_bind_eq_ok h
    obtain ⟨others, hothers, h⟩ := exists_of_bind_eq_ok h
    cases h
    have hhead := wellFormed_of_readDescriptor (hnames json List.mem_cons_self) hd
    exact List.forall_mem_cons.2
      ⟨hhead, ih (fun json hmem => hnames json (List.mem_cons_of_mem _ hmem)) hothers⟩

/-- **What is read is well-formed.** -/
theorem wellFormed_of_readDefinitions (hnames : json.hasDistinctNames = true)
    (h : readDefinitions json = .ok definitions) : ∀ d ∈ definitions, d.WellFormed := by
  cases json with
  | arr items => exact wellFormed_of_readDescriptors (Json.hasDistinctNames_arr.1 hnames) h
  | null => cases h
  | bool b => cases h
  | int n => cases h
  | float x => cases h
  | str s => cases h
  | obj members => cases h

end

end Schema

/-! ## Answers -/

namespace Schema

/-- What a schema says of the node types that are listed. -/
structure Expands (s : Schema) (definitions : List NodeType) : Prop where
  /-- Each name is there once, in the order of the first definitions. -/
  names_eq : s.names = (definitions.map (·.name)).eraseDups
  /-- The first named definition of a name counts, or else the first one. -/
  get?_eq : ∀ name, s.get? name =
    (definitions.find? fun d => d.name = name && d.named).or
      (definitions.find? fun d => d.name = name)
  nodup_fields : ∀ name, ((s.fields name).map Prod.fst).Nodup
  /-- A field is what the definitions for which a name stands say together about it. -/
  unites_fields : ∀ name f, FieldSpec.Unites
    (NodeType.declared (fun d => d.fields.lookup f) s.types name) ((s.fields name).lookup f)
  unites_children : ∀ name, FieldSpec.Unites
    (NodeType.declared NodeType.children s.types name) (s.children name)

/-- Whether two schemas say the same of two node types. -/
def SaysAlike (s : Schema) (name : String) (s' : Schema) (name' : String) : Prop :=
  (∀ f, (s.fields name).lookup f = (s'.fields name').lookup f) ∧ s.children name = s'.children name'

variable {s s' : Schema} {definitions definitions' : List NodeType}

lemma expands_ofDefinitions (source : Option String) (h : ∀ d ∈ definitions, d.WellFormed) :
    (ofDefinitions source definitions).Expands definitions := by
  have hkept : ∀ d ∈ definitions.foldl keep [], d.WellFormed := fun d hd =>
    h d ((mem_of_mem_foldl_keep hd).resolve_left List.not_mem_nil)
  have hnodup : ∀ d ∈ definitions.foldl keep [], (d.fields.map Prod.fst).Nodup :=
    fun d hd => (hkept d hd).nodup_fields
  refine ⟨map_name_foldl_keep definitions, find?_foldl_keep definitions,
    fun name => NodeType.nodup_expandFields hnodup, fun name f => ?_, fun name => ?_⟩
  · rw [fields, ofDefinitions, NodeType.lookup_expandFields hnodup]
    refine NodeType.unites_expand (fun d hd spec hspec => ?_) name
    obtain ⟨before, after, hfields, -⟩ := List.lookup_eq_some_iff.1 hspec
    exact (hkept d hd).inOrder_fields (f, spec) (by simp [hfields])
  · rw [children, ofDefinitions, NodeType.expandChildren_eq]
    exact NodeType.unites_expand (fun d hd => (hkept d hd).inOrder_children) name

/-- What is said of a node type depends only on the definitions for which its name stands. -/
lemma Expands.saysAlike {name name' : String} (h : s.Expands definitions)
    (h' : s'.Expands definitions')
    (hstands : ∀ d, NodeType.StandsFor s.types name d ↔ NodeType.StandsFor s'.types name' d) :
    s.SaysAlike name s' name' := by
  have hdeclared : ∀ pick, NodeType.declared pick s.types name =
      NodeType.declared pick s'.types name' := fun pick => by
    ext a
    simp only [NodeType.mem_declared, hstands]
  refine ⟨fun f => ?_, ?_⟩
  · have hfield := h.unites_fields name f
    rw [hdeclared] at hfield
    exact hfield.eq (h'.unites_fields name' f)
  · have hchildren := h.unites_children name
    rw [hdeclared] at hchildren
    exact hchildren.eq (h'.unites_children name')

end Schema

/-! ## Lists of subtypes in another order -/

namespace NodeType

/-- Whether two definitions differ at most in the order in which they list subtypes. -/
structure Shuffled (d e : NodeType) : Prop where
  name_eq : d.name = e.name
  named_eq : d.named = e.named
  fields_eq : d.fields = e.fields
  children_eq : d.children = e.children
  subtypes_perm : d.subtypes.Perm e.subtypes

namespace Shuffled

variable {d e : NodeType} {types types' definitions definitions' : List NodeType} {name : String}

lemma symm (h : Shuffled d e) : Shuffled e d :=
  ⟨h.name_eq.symm, h.named_eq.symm, h.fields_eq.symm, h.children_eq.symm, h.subtypes_perm.symm⟩

/-- Definitions that are not abstract list no subtypes. -/
lemma eq_of_leaf (h : Shuffled d e) (hd : d.isSupertype = false) : d = e := by
  have hnil := subtypes_eq_nil hd
  have hnil' : e.subtypes = [] := (hnil ▸ h.subtypes_perm).symm.eq_nil
  obtain ⟨hname, hnamed, hfields, hchildren, -⟩ := h
  cases d
  cases e
  simp_all

lemma wellFormed (h : Shuffled d e) (hd : d.WellFormed) : e.WellFormed := by
  obtain ⟨-, -, hfields, hchildren, -⟩ := h
  exact ⟨hfields ▸ hd.nodup_fields, hfields ▸ hd.inOrder_fields, hchildren ▸ hd.inOrder_children⟩

lemma forall_wellFormed (h : List.Forall₂ Shuffled types types')
    (htypes : ∀ t ∈ types, t.WellFormed) : ∀ t ∈ types', t.WellFormed := by
  induction h with
  | nil => simp
  | cons ht _ ih =>
    obtain ⟨hhead, hrest⟩ := List.forall_mem_cons.1 htypes
    exact List.forall_mem_cons.2 ⟨ht.wellFormed hhead, ih hrest⟩

lemma keep (h : List.Forall₂ Shuffled types types') (hd : Shuffled d e) :
    List.Forall₂ Shuffled (Schema.keep types d) (Schema.keep types' e) := by
  induction h with
  | nil => exact List.Forall₂.cons hd List.Forall₂.nil
  | @cons t u rest rest' ht hrest ih =>
    rw [Schema.keep, Schema.keep, ht.name_eq, ht.named_eq, hd.name_eq, hd.named_eq]
    split
    · split
      · exact List.Forall₂.cons hd hrest
      · exact List.Forall₂.cons ht hrest
    · exact List.Forall₂.cons ht ih

lemma foldl_keep (h : List.Forall₂ Shuffled definitions definitions')
    (htypes : List.Forall₂ Shuffled types types') :
    List.Forall₂ Shuffled (definitions.foldl Schema.keep types)
      (definitions'.foldl Schema.keep types') := by
  induction h generalizing types types' with
  | nil => exact htypes
  | cons hd _ ih => exact ih (keep htypes hd)

lemma exists_find? (h : List.Forall₂ Shuffled types types')
    (hd : types.find? (fun t => t.name = name) = some d) :
    ∃ e, types'.find? (fun t => t.name = name) = some e ∧ Shuffled d e := by
  induction h with
  | nil => cases hd
  | @cons t u rest rest' ht hrest ih =>
    rw [List.find?_cons] at hd
    by_cases hname : t.name = name
    · simp only [hname, decide_true, Option.some.injEq] at hd
      subst hd
      exact ⟨u, by simp [← ht.name_eq, hname], ht⟩
    · simp only [hname, decide_false] at hd
      obtain ⟨e, he, hde⟩ := ih hd
      exact ⟨e, by simp [← ht.name_eq, hname, he], hde⟩

lemma refers {a b : String} (h : List.Forall₂ Shuffled types types') (hab : Refers types a b) :
    Refers types' a b := by
  obtain ⟨t, ht, ref, href, hb⟩ := hab
  obtain ⟨u, hu, htu⟩ := exists_find? h ht
  exact ⟨u, hu, ref, htu.subtypes_perm.mem_iff.1 href, hb⟩

lemma standsFor (h : List.Forall₂ Shuffled types types') (hd : StandsFor types name d) :
    StandsFor types' name d := by
  obtain ⟨leaf, hpath, hfind, hleaf⟩ := hd
  obtain ⟨e, he, hde⟩ := exists_find? h hfind
  obtain rfl := hde.eq_of_leaf hleaf
  exact ⟨leaf, Relation.ReflTransGen.mono (fun _ _ => refers h) _ _ hpath, he, hleaf⟩

lemma standsFor_iff (h : List.Forall₂ Shuffled types types') :
    StandsFor types name d ↔ StandsFor types' name d :=
  ⟨standsFor h, standsFor (h.flip.imp fun _ _ => symm)⟩

end Shuffled

end NodeType

namespace Schema

variable {json : Json} {definitions : List NodeType}

/-- **What is made of a list of descriptors.**  The definitions compete by name, and the fields and
the children of a name are the union over what it stands for.  Names that stand for each other have
the same fields and children, and the order of subtypes does not matter. -/
theorem expands_of_readDefinitions (source : Option String) (hnames : json.hasDistinctNames = true)
    (hread : readDefinitions json = .ok definitions) :
    ∃ s, ofJson source json = .ok s ∧ s.Expands definitions ∧
      (∀ a b, Relation.ReflTransGen (NodeType.Refers s.types) a b →
        Relation.ReflTransGen (NodeType.Refers s.types) b a → s.SaysAlike a s b) ∧
      ∀ source' json' definitions', readDefinitions json' = .ok definitions' →
        List.Forall₂ NodeType.Shuffled definitions definitions' →
        ∃ s', ofJson source' json' = .ok s' ∧ ∀ name, s.SaysAlike name s' name := by
  have hwell := wellFormed_of_readDefinitions hnames hread
  have hexpands := expands_ofDefinitions source hwell
  refine ⟨ofDefinitions source definitions, by rw [ofJson, hread], hexpands, fun a b hab hba => ?_,
    fun source' json' definitions' hread' hshuffled => ?_⟩
  · exact hexpands.saysAlike hexpands fun d =>
      ⟨fun hd => .of_reflTransGen hba hd, fun hd => .of_reflTransGen hab hd⟩
  · have hwell' := NodeType.Shuffled.forall_wellFormed hshuffled hwell
    refine ⟨ofDefinitions source' definitions', by rw [ofJson, hread'], fun name => ?_⟩
    exact hexpands.saysAlike (expands_ofDefinitions source' hwell') fun d =>
      NodeType.Shuffled.standsFor_iff (NodeType.Shuffled.foldl_keep hshuffled .nil)

/-- A list of descriptors in which two abstract node types list each other, a name comes twice, and
one subtype has no definition. -/
def circularDescriptors : Json :=
  let ref (name : String) (named : Bool) : Json := .obj [("type", .str name), ("named", .bool named)]
  .arr
    [.obj [("type", .str "_p"), ("named", .bool true),
      ("subtypes", .arr [ref "_q" true, ref "a" true, ref "missing" true])],
     .obj [("type", .str "a"), ("named", .bool false)],
     .obj [("type", .str "_q"), ("named", .bool true),
      ("subtypes", .arr [ref "b" true, ref "_p" true])],
     .obj [("type", .str "b"), ("named", .bool true), ("fields", .obj [("body",
      .obj [("types", .arr [ref "y" false]), ("multiple", .bool true)])])],
     .obj [("type", .str "a"), ("named", .bool true), ("fields", .obj [("body",
      .obj [("types", .arr [ref "x" true]), ("required", .bool true)])])]]

/-- What is read of these descriptors. -/
def circularDefinitions : List NodeType :=
  [⟨"_p", true, [], none, [⟨"_q", true⟩, ⟨"a", true⟩, ⟨"missing", true⟩]⟩,
   ⟨"a", false, [], none, []⟩,
   ⟨"_q", true, [], none, [⟨"b", true⟩, ⟨"_p", true⟩]⟩,
   ⟨"b", true, [("body", ⟨[⟨"y", false⟩], true, false⟩)], none, []⟩,
   ⟨"a", true, [("body", ⟨[⟨"x", true⟩], false, true⟩)], none, []⟩]

/-- The node types of the circle have the same fields, merged from both definitions below it. -/
theorem saysAlike_circular : circularDescriptors.hasDistinctNames = true ∧
    readDefinitions circularDescriptors = .ok circularDefinitions ∧
    ∃ s, ofJson none circularDescriptors = .ok s ∧ s.names = ["_p", "a", "_q", "b"] ∧
      s.SaysAlike "_p" s "_q" ∧
      (s.fields "_p").lookup "body" = some ⟨[⟨"x", true⟩, ⟨"y", false⟩], true, false⟩ := by
  have hnames : circularDescriptors.hasDistinctNames = true := by decide +kernel
  have hread : readDefinitions circularDescriptors = .ok circularDefinitions := by rfl
  obtain ⟨s, hs, hexpands, hcircle, -⟩ := expands_of_readDefinitions none hnames hread
  refine ⟨hnames, hread, s, hs, by rw [hexpands.names_eq]; rfl, ?_, ?_⟩
  · obtain rfl := Except.ok.inj hs
    refine hcircle "_p" "_q" (.single ⟨_, rfl, ⟨"_q", true⟩, ?_, rfl⟩)
      (.single ⟨_, rfl, ⟨"_p", true⟩, ?_, rfl⟩)
    · simp
    · simp
  · obtain rfl := Except.ok.inj hs
    decide +kernel

end Schema

end TreeDiff
