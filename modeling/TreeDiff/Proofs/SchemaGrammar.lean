/-
# The grammar of schemas

Which JSON values are schemas, and what is reported of a value that is none: the first thing that is
wrong in the first descriptor that is wrong.  The order in which a descriptor is checked is that of
a list of checks.
-/
import TreeDiff.Proofs.Reading
import TreeDiff.Schema.Reader

namespace TreeDiff

namespace Json

/-- Whether a value is null. -/
def isNull : Json → Bool
  | null => true
  | _ => false

/-- Whether a value is a boolean. -/
def isBool : Json → Bool
  | bool _ => true
  | _ => false

/-- Whether a value is a string. -/
def isStr : Json → Bool
  | str _ => true
  | _ => false

/-- Whether a value is an array. -/
def isArr : Json → Bool
  | arr _ => true
  | _ => false

/-- Whether a value is an object. -/
def isObj : Json → Bool
  | obj _ => true
  | _ => false

/-- The items of an array. -/
def items : Json → List Json
  | arr items => items
  | _ => []

/-- The members of an object. -/
def members : Json → List (String × Json)
  | obj members => members
  | _ => []

/-- The string under a name. -/
def string? (json : Json) (name : String) : Option String :=
  match json.get? name with
  | some (str s) => some s
  | _ => none

end Json

namespace Schema

/-! ## The grammar -/

/-- A reference to a node type. -/
structure IsReference (json : Json) : Prop where
  object : ∃ members, json = .obj members
  type : ∃ name, json.get? "type" = some (.str name)
  named : ∀ flag ∈ json.get? "named", ∃ b, flag = .bool b

/-- The declaration of a field or of the positional children. -/
structure IsSpec (json : Json) : Prop where
  object : ∃ members, json = .obj members
  types : ∃ refs, json.get? "types" = some (.arr refs) ∧ ∀ ref ∈ refs, IsReference ref
  multiple : ∀ flag ∈ json.get? "multiple", ∃ b, flag = .bool b
  required : ∀ flag ∈ json.get? "required", ∃ b, flag = .bool b

/-- A descriptor of a node type. -/
structure IsDescriptor (json : Json) : Prop where
  object : ∃ members, json = .obj members
  type : ∃ name, json.get? "type" = some (.str name) ∧ name ≠ ""
  named : ∃ b, json.get? "named" = some (.bool b)
  fields : ∀ given ∈ json.get? "fields", given = .null ∨
    ∃ specs, given = .obj specs ∧ ∀ spec ∈ specs, IsSpec spec.2
  children : ∀ given ∈ json.get? "children", given = .null ∨ IsSpec given
  subtypes : ∀ given ∈ json.get? "subtypes", given = .null ∨
    ∃ refs, given = .arr refs ∧ ∀ ref ∈ refs, IsReference ref

/-- A schema. -/
def IsSchema (json : Json) : Prop :=
  ∃ descriptors, json = .arr descriptors ∧ ∀ descriptor ∈ descriptors, IsDescriptor descriptor

/-! ## The order of the checks -/

/-- What is checked of a reference. -/
def referenceChecks (slot : Slot) (json : Json) : List (Check Fault) :=
  [⟨json.isObj, .referenceNotObject slot⟩,
   ⟨(json.get? "type").any Json.isStr, .referenceWithoutType slot⟩,
   ⟨(json.get? "named").all Json.isBool, .referenceNamedNotBoolean slot⟩]

/-- What is checked of a flag. -/
def flagCheck (slot : Slot) (json : Json) (flag : String) : Check Fault :=
  ⟨(json.get? flag).all Json.isBool, .flagNotBoolean slot flag⟩

/-- What is checked of a declaration. -/
def specChecks (slot : Slot) (json : Json) : List (Check Fault) :=
  ⟨json.isObj, .specNotObject slot⟩ ::
  ⟨(json.get? "types").any Json.isArr, .specWithoutTypes slot⟩ ::
  flagCheck slot json "multiple" :: flagCheck slot json "required" ::
  ((json.get? "types").elim [] Json.items).flatMap (referenceChecks slot)

/-- What is checked of the fields of a descriptor. -/
def fieldsChecks (given : Option Json) : List (Check Fault) :=
  ⟨given.all fun json => json.isNull || json.isObj, .fieldsNotObject⟩ ::
  (given.elim [] Json.members).flatMap fun (name, json) => specChecks (.field name) json

/-- What is checked of the positional children of a descriptor. -/
def childrenChecks (given : Option Json) : List (Check Fault) :=
  (given.filter fun json => !json.isNull).elim [] (specChecks .children)

/-- What is checked of the subtypes of a descriptor. -/
def subtypesChecks (given : Option Json) : List (Check Fault) :=
  ⟨given.all fun json => json.isNull || json.isArr, .subtypesNotList⟩ ::
  (given.elim [] Json.items).flatMap (referenceChecks .subtypes)

/-- What is checked of the rest of a descriptor. -/
def bodyChecks (json : Json) : List (Check Fault) :=
  ⟨(json.get? "named").any Json.isBool, .namedNotBoolean⟩ ::
  (fieldsChecks (json.get? "fields") ++ childrenChecks (json.get? "children") ++
    subtypesChecks (json.get? "subtypes"))

/-- What is checked of the descriptor at an index. -/
def descriptorChecks (index : Nat) (json : Json) : List (Check Malformation) :=
  ⟨json.isObj, .descriptorNotObject index, none⟩ ::
  ⟨(json.string? "type").any fun name => !name.isEmpty, .descriptorWithoutType index, none⟩ ::
  (bodyChecks json).map (Check.mapFault (⟨·, json.string? "type"⟩))

/-! ## The reader checks in this order -/

section

variable {slot : Slot} {json : Json} {members : List (String × Json)}

lemma faultOf?_readReference :
    faultOf? (readReference slot json) = Check.firstFault (referenceChecks slot json) := by
  cases json with
  | obj members =>
    simp only [readReference, referenceChecks, Check.firstFault_cons, Check.firstFault_nil,
      Json.isObj, Json.get?, if_true]
    rcases members.lookup "type" with _ | type
    · rfl
    · rcases members.lookup "named" with _ | named
      · cases type <;> rfl
      · cases type <;> cases named <;> rfl
  | _ => rfl

lemma faultOf?_readReferences {items : List Json} : faultOf? (items.mapM (readReference slot)) =
    Check.firstFault (items.flatMap (referenceChecks slot)) := by
  simp only [faultOf?_mapM, faultOf?_readReference, Check.firstFault_flatMap]

lemma faultOf?_readFlag (slot : Slot) (members : List (String × Json)) (flag : String) :
    faultOf? (readFlag slot members flag) =
      Check.firstFault [flagCheck slot (.obj members) flag] := by
  simp only [readFlag, flagCheck, Check.firstFault_cons, Check.firstFault_nil, Json.get?]
  rcases members.lookup flag with _ | json
  · rfl
  · cases json <;> rfl

/-- What is demanded of a declaration that has a list of types. -/
lemma faultOf?_readSpec_of_types {items : List Json}
    (htypes : members.lookup "types" = some (.arr items)) :
    faultOf? (readSpec slot (.obj members)) =
      Check.firstFault (specChecks slot (.obj members)) := by
  have hrefs : ∀ multiple required, faultOf? (do
      let refs ← items.mapM (readReference slot)
      pure (⟨TypeRef.setOf refs, multiple, required⟩ : FieldSpec)) =
      Check.firstFault (items.flatMap (referenceChecks slot)) := fun _ _ => by
    rw [faultOf?_bind_pure, faultOf?_readReferences]
  have hread := faultOf?_bind_checks (faultOf?_readFlag slot members "multiple") fun multiple =>
    faultOf?_bind_checks (faultOf?_readFlag slot members "required") (hrefs multiple)
  simp only [readSpec, htypes]
  rw [hread]
  simp [specChecks, Json.get?, htypes, Json.isObj, Json.isArr, Json.items]

lemma faultOf?_readSpec :
    faultOf? (readSpec slot json) = Check.firstFault (specChecks slot json) := by
  cases json with
  | obj members =>
    rcases htypes : members.lookup "types" with _ | types
    · simp [readSpec, specChecks, htypes, Json.get?, Json.isObj, faultOf?]
    · cases types with
      | arr items => exact faultOf?_readSpec_of_types htypes
      | _ => simp [readSpec, specChecks, htypes, Json.get?, Json.isObj, Json.isArr, faultOf?]
  | _ => rfl

variable (given : Option Json)

lemma faultOf?_readNamed :
    faultOf? (readNamed given) = Check.firstFault [⟨given.any Json.isBool, .namedNotBoolean⟩] := by
  rcases given with _ | json
  · rfl
  · cases json <;> rfl

lemma faultOf?_readFields :
    faultOf? (readFields given) = Check.firstFault (fieldsChecks given) := by
  rcases given with _ | json
  · rfl
  · cases json with
    | obj specs =>
      simp only [readFields, fieldsChecks, faultOf?_mapM, faultOf?_map, faultOf?_readSpec,
        Check.firstFault_cons, Check.firstFault_flatMap]
      rfl
    | _ => rfl

lemma faultOf?_readChildren :
    faultOf? (readChildren given) = Check.firstFault (childrenChecks given) := by
  rcases given with _ | json
  · rfl
  · cases json with
    | null => rfl
    | _ =>
      simp only [readChildren, faultOf?_map, faultOf?_readSpec]
      rfl

lemma faultOf?_readSubtypes :
    faultOf? (readSubtypes given) = Check.firstFault (subtypesChecks given) := by
  rcases given with _ | json
  · rfl
  · cases json with
    | arr items => exact faultOf?_readReferences
    | _ => rfl

lemma faultOf?_readBody {name : String} :
    faultOf? (readBody name members) = Check.firstFault (bodyChecks (.obj members)) := by
  have hsubtypes : ∀ named fields children, faultOf? (do
      let subtypes ← readSubtypes (members.lookup "subtypes")
      pure (⟨name, named, fields, children, subtypes⟩ : NodeType)) =
      Check.firstFault (subtypesChecks (members.lookup "subtypes")) := fun _ _ _ => by
    rw [faultOf?_bind_pure, faultOf?_readSubtypes]
  have hread := faultOf?_bind_checks (faultOf?_readNamed (members.lookup "named")) fun named =>
    faultOf?_bind_checks (faultOf?_readFields (members.lookup "fields")) fun fields =>
      faultOf?_bind_checks (faultOf?_readChildren (members.lookup "children"))
        (hsubtypes named fields)
  rw [readBody, hread, bodyChecks, List.append_assoc]
  rfl

lemma faultOf?_readDescriptor {index : Nat} :
    faultOf? (readDescriptor index json) = Check.firstFault (descriptorChecks index json) := by
  cases json with
  | obj members =>
    rcases htype : members.lookup "type" with _ | type
    · simp [readDescriptor, descriptorChecks, htype, Json.isObj, Json.string?, Json.get?, faultOf?]
    · cases type with
      | str name =>
        cases hempty : name.isEmpty with
        | true =>
          simp [readDescriptor, descriptorChecks, htype, hempty, Json.isObj, Json.string?, Json.get?,
            faultOf?]
        | false =>
          simp [readDescriptor, descriptorChecks, htype, hempty, Json.isObj, Json.string?, Json.get?,
            faultOf?_readBody]
      | _ =>
        simp [readDescriptor, descriptorChecks, htype, Json.isObj, Json.string?, Json.get?, faultOf?]
  | _ => rfl

end

/-! ## What satisfies all checks -/

section

variable {slot : Slot} {json : Json} {given : Option Json}

lemma isObj_iff : json.isObj = true ↔ ∃ members, json = .obj members := by
  cases json <;> simp [Json.isObj]

lemma any_isStr_iff : given.any Json.isStr = true ↔ ∃ s, given = some (.str s) := by
  rcases given with _ | json
  · simp
  · cases json <;> simp [Json.isStr]

lemma any_isBool_iff : given.any Json.isBool = true ↔ ∃ b, given = some (.bool b) := by
  rcases given with _ | json
  · simp
  · cases json <;> simp [Json.isBool]

lemma any_isArr_iff : given.any Json.isArr = true ↔ ∃ items, given = some (.arr items) := by
  rcases given with _ | json
  · simp
  · cases json <;> simp [Json.isArr]

lemma all_isBool_iff : given.all Json.isBool = true ↔ ∀ flag ∈ given, ∃ b, flag = .bool b := by
  rcases given with _ | json
  · simp
  · cases json <;> simp [Json.isBool]

lemma forall_referenceChecks_iff :
    (∀ check ∈ referenceChecks slot json, check.holds = true) ↔ IsReference json := by
  simp only [referenceChecks, List.forall_mem_cons, List.not_mem_nil, false_implies, implies_true,
    and_true, isObj_iff, any_isStr_iff, all_isBool_iff]
  constructor
  · rintro ⟨hobject, htype, hnamed⟩
    exact ⟨hobject, htype, hnamed⟩
  · rintro ⟨hobject, htype, hnamed⟩
    exact ⟨hobject, htype, hnamed⟩

lemma forall_flatMap_referenceChecks_iff {items : List Json} :
    (∀ check ∈ items.flatMap (referenceChecks slot), check.holds = true) ↔
      ∀ ref ∈ items, IsReference ref := by
  simp only [List.forall_mem_flatMap, forall_referenceChecks_iff]

lemma forall_specChecks_iff :
    (∀ check ∈ specChecks slot json, check.holds = true) ↔ IsSpec json := by
  simp only [specChecks, flagCheck, List.forall_mem_cons, forall_flatMap_referenceChecks_iff,
    isObj_iff, any_isArr_iff, all_isBool_iff]
  constructor
  · rintro ⟨hobject, ⟨refs, htypes⟩, hmultiple, hrequired, hrefs⟩
    rw [htypes] at hrefs
    exact ⟨hobject, ⟨refs, htypes, hrefs⟩, hmultiple, hrequired⟩
  · rintro ⟨hobject, ⟨refs, htypes, hrefs⟩, hmultiple, hrequired⟩
    rw [htypes]
    exact ⟨hobject, ⟨refs, rfl⟩, hmultiple, hrequired, hrefs⟩

lemma forall_fieldsChecks_iff : (∀ check ∈ fieldsChecks given, check.holds = true) ↔
    ∀ json ∈ given, json = .null ∨ ∃ specs, json = .obj specs ∧ ∀ spec ∈ specs, IsSpec spec.2 := by
  simp only [fieldsChecks, List.forall_mem_cons, List.forall_mem_flatMap, forall_specChecks_iff]
  rcases given with _ | json
  · simp
  · cases json <;> simp [Json.isNull, Json.isObj, Json.members]

lemma forall_childrenChecks_iff : (∀ check ∈ childrenChecks given, check.holds = true) ↔
    ∀ json ∈ given, json = .null ∨ IsSpec json := by
  rcases given with _ | json
  · simp [childrenChecks]
  · cases json with
    | null => simp [childrenChecks, Option.filter, Json.isNull]
    | _ =>
      simp only [Option.mem_def, Option.some.injEq, forall_eq', reduceCtorEq, false_or]
      exact forall_specChecks_iff

lemma forall_subtypesChecks_iff : (∀ check ∈ subtypesChecks given, check.holds = true) ↔
    ∀ json ∈ given, json = .null ∨ ∃ refs, json = .arr refs ∧ ∀ ref ∈ refs, IsReference ref := by
  simp only [subtypesChecks, List.forall_mem_cons, forall_flatMap_referenceChecks_iff]
  rcases given with _ | json
  · simp
  · cases json <;> simp [Json.isNull, Json.isArr, Json.items]

lemma any_string?_iff : ((json.string? "type").any fun name => !name.isEmpty) = true ↔
    ∃ name, json.get? "type" = some (.str name) ∧ name ≠ "" := by
  rw [Json.string?]
  rcases json.get? "type" with _ | type
  · simp
  · cases type <;> simp

lemma forall_descriptorChecks_iff {index : Nat} :
    (∀ check ∈ descriptorChecks index json, check.holds = true) ↔ IsDescriptor json := by
  simp only [descriptorChecks, bodyChecks, List.forall_mem_cons, List.forall_mem_map,
    List.forall_mem_append, Check.mapFault, isObj_iff, any_string?_iff, any_isBool_iff,
    forall_fieldsChecks_iff, forall_childrenChecks_iff, forall_subtypesChecks_iff]
  constructor
  · rintro ⟨hobject, htype, hnamed, ⟨hfields, hchildren⟩, hsubtypes⟩
    exact ⟨hobject, htype, hnamed, hfields, hchildren, hsubtypes⟩
  · rintro ⟨hobject, htype, hnamed, hfields, hchildren, hsubtypes⟩
    exact ⟨hobject, htype, hnamed, ⟨hfields, hchildren⟩, hsubtypes⟩

end

/-! ## Schemas -/

lemma exists_readDescriptor_iff {index : Nat} {json : Json} :
    (∃ d, readDescriptor index json = .ok d) ↔ IsDescriptor json := by
  rw [← faultOf?_eq_none_iff, faultOf?_readDescriptor, Check.firstFault_eq_none_iff,
    forall_descriptorChecks_iff]

lemma isFirst_of_readDescriptor {index : Nat} {json : Json} {m : Malformation}
    (h : readDescriptor index json = .error m) : Check.IsFirst (descriptorChecks index json) m := by
  rw [← Check.firstFault_eq_some_iff, ← faultOf?_readDescriptor, faultOf?_eq_some_iff, h]

/-- Whether a malformation is that of the first descriptor that is wrong, and in it the first. -/
def IsFirstMalformation (index : Nat) (descriptors : List Json) (m : Malformation) : Prop :=
  ∃ before bad after, descriptors = before ++ bad :: after ∧
    (∀ descriptor ∈ before, IsDescriptor descriptor) ∧ ¬IsDescriptor bad ∧
    Check.IsFirst (descriptorChecks (index + before.length) bad) m

/-- The descriptors are read one after another. -/
lemma readDescriptors_ok_or (index : Nat) (descriptors : List Json) :
    (∀ descriptor ∈ descriptors, IsDescriptor descriptor) ∧
        (∃ definitions, readDescriptors index descriptors = .ok definitions) ∨
      ∃ m, readDescriptors index descriptors = .error m ∧
        IsFirstMalformation index descriptors m := by
  induction descriptors generalizing index with
  | nil => exact Or.inl ⟨by simp, [], rfl⟩
  | cons json rest ih =>
    cases hread : readDescriptor index json with
    | error m =>
      have hbad : ¬IsDescriptor json := fun h => by
        obtain ⟨d, hd⟩ := exists_readDescriptor_iff.2 h
        rw [hread] at hd
        cases hd
      refine Or.inr ⟨m, by rw [readDescriptors, hread]; rfl, [], json, rest, rfl, by simp, hbad, ?_⟩
      exact isFirst_of_readDescriptor hread
    | ok d =>
      have hgood : IsDescriptor json := exists_readDescriptor_iff.1 ⟨d, hread⟩
      rcases ih (index + 1) with ⟨hrest, definitions, hok⟩ | ⟨m, herror, hfirst⟩
      · refine Or.inl ⟨List.forall_mem_cons.2 ⟨hgood, hrest⟩, d :: definitions, ?_⟩
        rw [readDescriptors, hread]
        simp only [bind, Except.bind, hok, pure, Except.pure]
      · -- this descriptor is good, so the first one that is wrong lies behind it
        obtain ⟨before, bad, after, rfl, hbefore, hbad, hm⟩ := hfirst
        refine Or.inr ⟨m, ?_, json :: before, bad, after, rfl,
          List.forall_mem_cons.2 ⟨hgood, hbefore⟩, hbad, ?_⟩
        · rw [readDescriptors, hread]
          simp only [bind, Except.bind, herror]
        · rwa [List.length_cons, Nat.add_comm before.length 1, ← Nat.add_assoc]

/-- **The reader accepts schemas and nothing else, and reports what is wrong first.** -/
theorem accepts_or_reports (source : Option String) (json : Json) :
    IsSchema json ∧ (∃ s, ofJson source json = .ok s) ∨
    ¬IsSchema json ∧ ∃ m : Malformation,
      ofJson source json = .error (m.report source) ∧
      ((∀ descriptors, json ≠ .arr descriptors) ∧ m = ⟨.rootNotList, none⟩ ∨
        ∃ descriptors, json = .arr descriptors ∧ IsFirstMalformation 0 descriptors m) ∧
      (m.report source).code = .schemaMalformed ∧
      (m.report source).details = [("reason", .str m.fault.message),
        ("node_type", .ofOption m.nodeType), ("source", .ofOption source)] := by
  cases json with
  | arr descriptors =>
    rcases readDescriptors_ok_or 0 descriptors with ⟨hall, definitions, hok⟩ | ⟨m, herror, hfirst⟩
    · exact Or.inl ⟨⟨descriptors, rfl, hall⟩, _, by rw [ofJson, readDefinitions, hok]⟩
    · refine Or.inr ⟨?_, m, by rw [ofJson, readDefinitions, herror],
        Or.inr ⟨descriptors, rfl, hfirst⟩, rfl, rfl⟩
      rintro ⟨descriptors', heq, hall⟩
      cases heq
      obtain ⟨before, bad, after, rfl, -, hbad, -⟩ := hfirst
      exact hbad (hall bad (by simp))
  | _ =>
    refine Or.inr ⟨?_, ⟨.rootNotList, none⟩, rfl, Or.inl ⟨by simp, rfl⟩, rfl, rfl⟩
    rintro ⟨descriptors, heq, -⟩
    cases heq

/-- The flag comes before the fields, and null is no flag. -/
example : readDefinitions (.arr [.obj [("type", .str "a"), ("fields", .arr []), ("named", .null)]]) =
    .error ⟨.namedNotBoolean, some "a"⟩ := by rfl

end Schema

end TreeDiff
