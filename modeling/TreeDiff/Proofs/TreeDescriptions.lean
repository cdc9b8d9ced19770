/-
# Descriptions of trees

A node may be described with some members left out.  The normal form of a description gives what is
left out, drops a field that is null and children of which there are none, and has its members in a
fixed order, at every depth.  What is written for a tree is the normal form of each of its
descriptions, so reading undoes writing, and descriptions with the same normal form describe the
same tree.
-/
import Mathlib.Data.Option.Basic
import Mathlib.Tactic.Lemma
import TreeDiff.Diff.Classify
import TreeDiff.Proofs.Reading
import TreeDiff.Tree.Codec

namespace TreeDiff

/-- A value that is not null. -/
def Json.notNull : Json → Option Json
  | .null => none
  | json => some json

namespace Node

variable {ms : List (String × Json)} {items : List Json} {json : Json} {node leaf : Node}
  {nodes : List Node}

/-! ## Members in their places -/

/-- Where a node starts unless it says so. -/
def origin : Json := pointToJson ⟨0, 0⟩

/-- A member that may be missing. -/
def memberOf (name : String) : Option Json → List (String × Json)
  | some json => [(name, json)]
  | none => []

/-- The members of a node, each in its place. -/
structure Slots where
  type : Option Json
  text : Json
  named : Json
  start : Json
  stop : Json
  field : Option Json
  children : Option Json

namespace Slots

/-- The members of a node in their order. -/
def members (s : Slots) : List (String × Json) :=
  memberOf "type" s.type ++
    [("text", s.text), ("named", s.named), ("start", s.start), ("end", s.stop)] ++
    memberOf "field" s.field ++ memberOf "children" s.children

/-- The members of a description, whose other members say nothing about a node.  What it leaves out
is as usual: no text, a named node, the origin, and for the end what is said of the start. -/
def ofMembers (members : List (String × Json)) (children : Option Json) : Slots where
  type := members.lookup "type"
  text := (members.lookup "text").getD (.str "")
  named := (members.lookup "named").getD (.bool true)
  start := (members.lookup "start").getD origin
  stop := (members.lookup "end").getD ((members.lookup "start").getD origin)
  field := (members.lookup "field").bind Json.notNull
  children := children

/-- The members of a node, its children given. -/
def ofNode (node : Node) (children : Option Json) : Slots where
  type := some (.str node.type)
  text := .str node.text
  named := .bool node.named
  start := pointToJson node.start
  stop := pointToJson node.stop
  field := node.field.map .str
  children := children

/-- Members are found in their places again. -/
lemma lookup_members (s : Slots) :
    s.members.lookup "type" = s.type ∧ s.members.lookup "text" = some s.text ∧
    s.members.lookup "named" = some s.named ∧ s.members.lookup "start" = some s.start ∧
    s.members.lookup "end" = some s.stop ∧ s.members.lookup "field" = s.field ∧
    s.members.lookup "children" = s.children := by
  -- the members that may be missing decide where the others stand
  obtain ⟨type, text, named, start, stop, field, children⟩ := s
  cases type <;> cases field <;> cases children <;> exact ⟨rfl, rfl, rfl, rfl, rfl, rfl, rfl⟩

lemma members_injective : Function.Injective members := by
  intro s t h
  obtain ⟨htype, htext, hnamed, hstart, hstop, hfield, hchildren⟩ := s.lookup_members
  obtain ⟨htype', htext', hnamed', hstart', hstop', hfield', hchildren'⟩ := t.lookup_members
  rw [h] at htype htext hnamed hstart hstop hfield hchildren
  obtain ⟨type, text, named, start, stop, field, children⟩ := s
  obtain ⟨type', text', named', start', stop', field', children'⟩ := t
  rw [mk.injEq]
  exact ⟨htype.symm.trans htype', Option.some.inj (htext.symm.trans htext'),
    Option.some.inj (hnamed.symm.trans hnamed'), Option.some.inj (hstart.symm.trans hstart'),
    Option.some.inj (hstop.symm.trans hstop'), hfield.symm.trans hfield',
    hchildren.symm.trans hchildren'⟩

/-- Nothing is left out of what is written for a node. -/
lemma ofMembers_members (node : Node) (children children' : Option Json) :
    ofMembers (ofNode node children).members children' = ofNode node children' := by
  obtain ⟨htype, htext, hnamed, hstart, hstop, hfield, -⟩ := (ofNode node children).lookup_members
  have hnull : (node.field.map Json.str).bind Json.notNull = node.field.map Json.str := by
    cases node.field <;> rfl
  rw [ofMembers, htype, htext, hnamed, hstart, hstop, hfield]
  exact congrArg (fun field => Slots.mk _ _ _ _ _ field children') hnull

end Slots

/-! ## Normal forms -/

/-- The member for a row of children, unless it is empty. -/
def row : List Json → Option Json
  | [] => none
  | json :: rest => some (.arr (json :: rest))

lemma row_injective : Function.Injective row := by
  intro a b h
  cases a <;> cases b <;> simp_all [row]

mutual

/-- The normal form of a description. -/
def normalForm : Json → Json
  | .obj members => .obj (Slots.ofMembers members (normalChildren members)).members
  | json => json

/-- The children among the members of a description, unless there are none. -/
def normalChildren : List (String × Json) → Option Json
  | [] => none
  | (name, json) :: rest => if name = "children" then normalRow json else normalChildren rest

/-- The member for children, unless it is empty. -/
def normalRow : Json → Option Json
  | .arr items => row (normalForms items)
  | .str s => if s.isEmpty then none else some (.str s)
  | .obj members => if members.isEmpty then none else some (.obj members)
  | json => some json

/-- The normal forms of a row of descriptions. -/
def normalForms : List Json → List Json
  | [] => []
  | json :: rest => normalForm json :: normalForms rest

end

/-- What is written for a node are its members in their places. -/
lemma toJson_eq (node : Node) :
    node.toJson = .obj (Slots.ofNode node (row (toJsons node.children))).members := by
  obtain ⟨type, text, named, start, stop, field, children⟩ := node
  simp only [toJson]
  cases field <;> cases toJsons children <;> rfl

lemma normalChildren_members (s : Slots) :
    normalChildren s.members = s.children.bind normalRow := by
  obtain ⟨type, text, named, start, stop, field, children⟩ := s
  cases type <;> cases field <;> cases children <;>
    simp [Slots.members, memberOf, normalChildren]

lemma normalRow_row (items : List Json) : (row items).bind normalRow = row (normalForms items) := by
  cases items with
  | nil => rw [normalForms]; rfl
  | cons json rest => rw [row, Option.bind_some, normalRow]

mutual

/-- What is written for a node is in normal form. -/
theorem normalForm_toJson : ∀ node : Node, normalForm node.toJson = node.toJson
  | node@⟨_, _, _, _, _, _, children⟩ => by
    rw [toJson_eq, normalForm, normalChildren_members]
    show Json.obj (Slots.ofMembers _ ((row (toJsons children)).bind normalRow)).members = _
    rw [normalRow_row, normalForms_toJsons children, Slots.ofMembers_members]

/-- What is written for a row of nodes is in normal form. -/
theorem normalForms_toJsons : ∀ nodes : List Node, normalForms (toJsons nodes) = toJsons nodes
  | [] => by rw [toJsons, normalForms]
  | node :: rest => by
    rw [toJsons, normalForms, normalForm_toJson node, normalForms_toJsons rest]

end

/-! ## Reading -/

lemma pointOfJson_eq_ok {p : Point} : pointOfJson json = .ok p ↔ json = pointToJson p := by
  constructor
  · intro h
    unfold pointOfJson at h
    split at h
    · cases h
      rfl
    · cases h
  · rintro rfl
    rfl

lemma textMember_eq_ok {name usual text : String} :
    textMember (.obj ms) name usual = .ok text ↔
      (ms.lookup name).getD (.str usual) = .str text := by
  rw [textMember, Json.get?]
  cases ms.lookup name with
  | none => simp
  | some json => cases json <;> simp

/-- The type of a node, which must be said. -/
def typeMember (ms : List (String × Json)) : Except Fault String :=
  match ms.lookup "type" with
  | none => .error .missingType
  | some (.str s) => .ok s
  | some _ => .error (.illTyped "type")

lemma typeMember_eq_ok {type : String} :
    typeMember ms = .ok type ↔ ms.lookup "type" = some (.str type) := by
  rw [typeMember]
  cases ms.lookup "type" with
  | none => simp
  | some json => cases json <;> simp

/-- Whether a node is named, which it is unless it says otherwise. -/
def namedMember (ms : List (String × Json)) : Except Fault Bool :=
  match ms.lookup "named" with
  | none => .ok true
  | some (.bool b) => .ok b
  | some _ => .error (.illTyped "named")

lemma namedMember_eq_ok {named : Bool} :
    namedMember ms = .ok named ↔ (ms.lookup "named").getD (.bool true) = .bool named := by
  rw [namedMember]
  cases ms.lookup "named" with
  | none => simp
  | some json => cases json <;> simp

/-- The field of a node; a field that is null is none. -/
def fieldMember (ms : List (String × Json)) : Except Fault (Option String) :=
  match ms.lookup "field" with
  | none => .ok none
  | some .null => .ok none
  | some (.str s) => .ok (some s)
  | some _ => .error (.illTyped "field")

lemma fieldMember_eq_ok {field : Option String} :
    fieldMember ms = .ok field ↔ (ms.lookup "field").bind Json.notNull = field.map .str := by
  rw [fieldMember]
  cases ms.lookup "field" with
  | none => cases field <;> simp
  | some json => cases json <;> cases field <;> simp [Json.notNull]

/-- The members of a node are read one after another. -/
lemma leafOfJson_eq : leafOfJson (.obj ms) = (do
    let type ← typeMember ms
    let text ← textMember (.obj ms) "text" ""
    let named ← namedMember ms
    let start ← pointOfJson ((ms.lookup "start").getD origin)
    let stop ← pointOfJson ((ms.lookup "end").getD ((ms.lookup "start").getD origin))
    let field ← fieldMember ms
    pure ⟨type, text, named, start, stop, field, []⟩) := by
  -- what is read next stands inside each choice, so the choices are made one by one
  simp only [leafOfJson, typeMember, namedMember, fieldMember, Json.get?]
  cases ms.lookup "type" with
  | none => rfl
  | some json =>
    cases json with
    | str type =>
      refine bind_congr fun text => ?_
      cases ms.lookup "named" with
      | none =>
        refine bind_congr fun start => bind_congr fun stop => ?_
        cases ms.lookup "field" with
        | none => rfl
        | some json => cases json <;> rfl
      | some json =>
        cases json with
        | bool named =>
          refine bind_congr fun start => bind_congr fun stop => ?_
          cases ms.lookup "field" with
          | none => rfl
          | some json => cases json <;> rfl
        | _ => rfl
    | _ => rfl

/-- The members of a node are read from a description exactly if they are what it says, or what is
usual where it says nothing. -/
lemma leafOfJson_eq_ok : leafOfJson (.obj ms) = .ok leaf ↔
    leaf.children = [] ∧ Slots.ofMembers ms none = Slots.ofNode leaf none := by
  rw [leafOfJson_eq, Slots.ofMembers, Slots.ofNode, Slots.mk.injEq]
  constructor
  · intro h
    obtain ⟨type, htype, h⟩ := exists_of_bind_eq_ok h
    obtain ⟨text, htext, h⟩ := exists_of_bind_eq_ok h
    obtain ⟨named, hnamed, h⟩ := exists_of_bind_eq_ok h
    obtain ⟨start, hstart, h⟩ := exists_of_bind_eq_ok h
    obtain ⟨stop, hstop, h⟩ := exists_of_bind_eq_ok h
    obtain ⟨field, hfield, h⟩ := exists_of_bind_eq_ok h
    cases h
    exact ⟨rfl, typeMember_eq_ok.1 htype, textMember_eq_ok.1 htext, namedMember_eq_ok.1 hnamed,
      pointOfJson_eq_ok.1 hstart, pointOfJson_eq_ok.1 hstop, fieldMember_eq_ok.1 hfield, rfl⟩
  · rintro ⟨hnone, htype, htext, hnamed, hstart, hstop, hfield, -⟩
    rw [typeMember_eq_ok.2 htype, textMember_eq_ok.2 htext, namedMember_eq_ok.2 hnamed,
      pointOfJson_eq_ok.2 hstart, pointOfJson_eq_ok.2 hstop, fieldMember_eq_ok.2 hfield]
    obtain ⟨type, text, named, start, stop, field, children⟩ := leaf
    cases hnone
    rfl

/-- The node with the children that are read apart. -/
lemma ofJson_obj_eq_ok : ofJson (.obj ms) = .ok node ↔
    leafOfJson (.obj ms) = .ok { node with children := [] } ∧
      childrenOfMembers ms = .ok node.children := by
  rw [ofJson]
  constructor
  · intro h
    obtain ⟨leaf, hleaf, h⟩ := exists_of_bind_eq_ok h
    obtain ⟨children, hchildren, h⟩ := exists_of_bind_eq_ok h
    cases h
    obtain ⟨hnone, -⟩ := leafOfJson_eq_ok.1 hleaf
    obtain ⟨type, text, named, start, stop, field, inner⟩ := leaf
    cases hnone
    exact ⟨hleaf, hchildren⟩
  · rintro ⟨hleaf, hchildren⟩
    rw [hleaf, hchildren]
    -- a node is no pair of its members and its children before it is taken apart
    obtain ⟨type, text, named, start, stop, field, children⟩ := node
    rfl

mutual

/-- A description is read as a node exactly if what is written for the node is the normal form of
the description. -/
theorem ofJson_eq_ok : ∀ {d : Json} {node : Node},
    ofJson d = .ok node ↔ normalForm d = node.toJson
  | .obj ms, node => by
    rw [ofJson_obj_eq_ok, leafOfJson_eq_ok, @childrenOfMembers_eq_ok ms, normalForm,
      toJson_eq, Json.obj.injEq, Slots.members_injective.eq_iff]
    simp [Slots.ofMembers, Slots.ofNode, and_assoc]
  | .null, node | .bool _, node | .int _, node | .float _, node | .str _, node | .arr _, node => by
    rw [toJson_eq]
    simp [ofJson, normalForm]

theorem childrenOfMembers_eq_ok : ∀ {ms : List (String × Json)} {nodes : List Node},
    childrenOfMembers ms = .ok nodes ↔ normalChildren ms = row (toJsons nodes)
  | [], nodes => by
    rw [childrenOfMembers, normalChildren]
    cases nodes <;> simp [toJsons, row]
  | (name, json) :: rest, nodes => by
    rw [childrenOfMembers, normalChildren]
    split
    · exact childrenOfJson_eq_ok
    · exact childrenOfMembers_eq_ok

theorem childrenOfJson_eq_ok : ∀ {json : Json} {nodes : List Node},
    childrenOfJson json = .ok nodes ↔ normalRow json = row (toJsons nodes)
  | .arr items, nodes => by
    rw [childrenOfJson, normalRow, row_injective.eq_iff]
    exact ofJsons_eq_ok
  | .str s, nodes => by
    rw [childrenOfJson, normalRow]
    cases nodes <;> split <;> simp [toJsons, row]
  | .obj ms, nodes => by
    rw [childrenOfJson, normalRow]
    cases nodes <;> split <;> simp [toJsons, row]
  | .null, nodes | .bool _, nodes | .int _, nodes | .float _, nodes => by
    cases nodes <;> simp [childrenOfJson, normalRow, toJsons, row]

theorem ofJsons_eq_ok : ∀ {items : List Json} {nodes : List Node},
    ofJsons items = .ok nodes ↔ normalForms items = toJsons nodes
  | [], nodes => by
    rw [ofJsons, normalForms]
    cases nodes <;> simp [toJsons]
  | item :: rest, nodes => by
    rw [ofJsons, normalForms]
    constructor
    · intro h
      obtain ⟨node, hnode, h⟩ := exists_of_bind_eq_ok h
      obtain ⟨others, hothers, h⟩ := exists_of_bind_eq_ok h
      cases h
      rw [toJsons, ofJson_eq_ok.1 hnode, ofJsons_eq_ok.1 hothers]
    · intro h
      cases nodes with
      | nil => cases h
      | cons node others =>
        rw [toJsons, List.cons.injEq] at h
        rw [ofJson_eq_ok.2 h.1, ofJsons_eq_ok.2 h.2]
        rfl

end

/-! ## Reading normal forms -/

/-- Where nothing is said what is usual is read, and a field that is null is read as none. -/
lemma leafOfJson_ofMembers {children : Option Json} :
    leafOfJson (.obj (Slots.ofMembers ms children).members) = leafOfJson (.obj ms) := by
  obtain ⟨htype, htext, hnamed, hstart, hstop, hfield, -⟩ :=
    (Slots.ofMembers ms children).lookup_members
  have htypes : typeMember (Slots.ofMembers ms children).members = typeMember ms := by
    rw [typeMember, htype]
    rfl
  have htexts : textMember (.obj (Slots.ofMembers ms children).members) "text" "" =
      textMember (.obj ms) "text" "" := by
    rw [textMember, textMember, Json.get?, Json.get?, htext, Slots.ofMembers]
    cases ms.lookup "text" <;> rfl
  have hnameds : namedMember (Slots.ofMembers ms children).members = namedMember ms := by
    rw [namedMember, namedMember, hnamed, Slots.ofMembers]
    cases ms.lookup "named" <;> rfl
  have hfields : fieldMember (Slots.ofMembers ms children).members = fieldMember ms := by
    rw [fieldMember, fieldMember, hfield, Slots.ofMembers]
    cases ms.lookup "field" with
    | none => rfl
    | some json => cases json <;> rfl
  rw [leafOfJson_eq, leafOfJson_eq, htypes, htexts, hnameds, hfields, hstart, hstop]
  rfl

/-- The children that are read from a member for them. -/
def childrenOf (json : Option Json) : Except Fault (List Node) := json.elim (.ok []) childrenOfJson

lemma childrenOfMembers_members (s : Slots) :
    childrenOfMembers s.members = childrenOf s.children := by
  obtain ⟨type, text, named, start, stop, field, children⟩ := s
  cases type <;> cases field <;> cases children <;>
    simp [Slots.members, memberOf, childrenOfMembers, childrenOf]

lemma childrenOf_row : childrenOf (row items) = ofJsons items := by
  cases items with
  | nil => rw [ofJsons]; rfl
  | cons json rest => rw [row, childrenOf, Option.elim_some, childrenOfJson]

mutual

/-- A description and its normal form are read as the same node, or fail with the same fault. -/
theorem ofJson_normalForm : ∀ d : Json, ofJson (normalForm d) = ofJson d
  | .obj ms => by
    rw [normalForm, ofJson, ofJson, leafOfJson_ofMembers, childrenOfMembers_members]
    exact bind_congr fun leaf => by rw [Slots.ofMembers, childrenOf_normalChildren ms]
  | .null | .bool _ | .int _ | .float _ | .str _ | .arr _ => by simp only [normalForm]

theorem childrenOf_normalChildren : ∀ ms : List (String × Json),
    childrenOf (normalChildren ms) = childrenOfMembers ms
  | [] => by rw [normalChildren, childrenOfMembers]; rfl
  | (name, json) :: rest => by
    rw [normalChildren, childrenOfMembers]
    split
    · exact childrenOf_normalRow json
    · exact childrenOf_normalChildren rest

theorem childrenOf_normalRow : ∀ json : Json, childrenOf (normalRow json) = childrenOfJson json
  | .arr items => by rw [normalRow, childrenOfJson, childrenOf_row, ofJsons_normalForms items]
  | .str s => by
    rw [normalRow, childrenOfJson]
    split
    · rfl
    · next h => rw [childrenOf, Option.elim_some, childrenOfJson, if_neg h]
  | .obj ms => by
    rw [normalRow, childrenOfJson]
    split
    · rfl
    · next h => rw [childrenOf, Option.elim_some, childrenOfJson, if_neg h]
  | .null | .bool _ | .int _ | .float _ => by simp only [normalRow, childrenOf, Option.elim_some]

theorem ofJsons_normalForms : ∀ items : List Json, ofJsons (normalForms items) = ofJsons items
  | [] => by rw [normalForms]
  | item :: rest => by
    rw [normalForms, ofJsons, ofJsons, ofJson_normalForm item, ofJsons_normalForms rest]

end

/-! ## Trees and their descriptions -/

/-- What is extracted from the tree of a description. -/
def extracted (x : Extractor) (d : Json) : Except Fault (List ExtractedNode) :=
  (ofJson d).map x.extractAll

/-- The nodes of the given types that are extracted from the tree of a description. -/
def extractedByType (x : Extractor) (types : List String) (d : Json) :
    Except Fault (List ExtractedNode) :=
  (ofJson d).map fun root => x.extractByType root types

/-- The difference between the trees of two descriptions. -/
def compared (differ : Differ) (fullText : Bool) (old new : Json) :
    Except Fault (Except Report Diff) := do
  let oldRoot ← ofJson old
  let newRoot ← ofJson new
  pure (differ.diff fullText (some oldRoot) (some newRoot))

/-- What writing and reading trees keep. -/
structure ReadsBack : Prop where
  /-- Reading what is written for a node gives the node back. -/
  written (node : Node) : ofJson node.toJson = .ok node
  /-- A description is read as a node exactly if what is written for the node is the normal form of
  the description. -/
  read_iff (d : Json) (node : Node) : ofJson d = .ok node ↔ node.toJson = normalForm d
  /-- Writing after reading does nothing when it is done again. -/
  again (d e : Json) (h : (ofJson d).map toJson = .ok e) : (ofJson e).map toJson = .ok e
  /-- Descriptions with the same normal form give the same node or the same fault. -/
  same_node {d d' : Json} (h : normalForm d = normalForm d') : ofJson d = ofJson d'
  /-- They give the same extractions. -/
  same_extracted {d d' : Json} (h : normalForm d = normalForm d') (x : Extractor)
    (types : List String) : extracted x d = extracted x d' ∧
      extractedByType x types d = extractedByType x types d'
  /-- They give the same differences to the same other trees. -/
  same_compared {old old' new new' : Json} (hold : normalForm old = normalForm old')
    (hnew : normalForm new = normalForm new') (differ : Differ) (fullText : Bool) :
    compared differ fullText old new = compared differ fullText old' new'

/-- **Writing and reading trees.**  Reading gives back what has been written, and what is written
after reading is the normal form of a description, in which what it leaves out is filled in, and a
null field, empty children and what is no member of a node are left out, at every depth.  Nothing
else of a description counts. -/
theorem toJson_ofJson_normalForm : ReadsBack := by
  have hwritten : ∀ node : Node, ofJson node.toJson = .ok node := fun node =>
    ofJson_eq_ok.2 (normalForm_toJson node)
  have hsame : ∀ {d d' : Json}, normalForm d = normalForm d' → ofJson d = ofJson d' := by
    intro d d' h
    rw [← ofJson_normalForm d, h, ofJson_normalForm]
  refine ⟨hwritten, fun d node => ofJson_eq_ok.trans eq_comm, fun d e h => ?_, hsame,
    fun h x types => ?_, fun hold hnew differ fullText => ?_⟩
  · obtain ⟨node, -, rfl⟩ := map_eq_ok_iff.1 h
    rw [hwritten]
    rfl
  · rw [extracted, extracted, extractedByType, extractedByType, hsame h]
    exact ⟨rfl, rfl⟩
  · rw [compared, compared, hsame hold, hsame hnew]

/-- A call whose only child is a token, described by little more than their types. -/
def briefCall : Json :=
  .obj [("children", .arr [.obj [("named", .bool false), ("type", .str "("),
      ("start", .arr [.int 1, .int 4])]]),
    ("field", .null), ("type", .str "call")]

/-- The same call with nothing left out. -/
def fullCall : Json :=
  .obj [("type", .str "call"), ("text", .str ""), ("named", .bool true), ("start", origin),
    ("end", origin), ("children", .arr [.obj [("type", .str "("), ("text", .str ""),
      ("named", .bool false), ("start", .arr [.int 1, .int 4]), ("end", .arr [.int 1, .int 4])]])]

/-- The call that both describe. -/
def call : Node :=
  ⟨"call", "", true, ⟨0, 0⟩, ⟨0, 0⟩, none, [⟨"(", "", false, ⟨1, 4⟩, ⟨1, 4⟩, none, []⟩]⟩

theorem briefCall_fullCall :
    ofJson briefCall = .ok call ∧ call.toJson = fullCall ∧
    (ofJson fullCall).map toJson = .ok fullCall ∧
    ∀ x differ, extracted x briefCall = extracted x fullCall ∧
      compared differ true briefCall fullCall = compared differ true fullCall briefCall := by
  have hlaws : ReadsBack := toJson_ofJson_normalForm
  have hnormal : normalForm briefCall = normalForm fullCall := rfl
  have hcall : ofJson briefCall = .ok call := (hlaws.read_iff briefCall call).2 rfl
  have hwritten : (ofJson briefCall).map toJson = .ok fullCall := by rw [hcall]; rfl
  exact ⟨hcall, rfl, hlaws.again briefCall fullCall hwritten, fun x differ =>
    ⟨(hlaws.same_extracted hnormal x []).1,
      hlaws.same_compared hnormal hnormal.symm differ true⟩⟩

end Node

end TreeDiff
