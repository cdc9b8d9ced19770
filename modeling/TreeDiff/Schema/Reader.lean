/-
# Reading schemas

A schema is a JSON list with one descriptor per node type.  A list that is no schema is refused with
the first thing that is wrong in it, in the order of the document.  Types that are referred to need
not be defined: many grammars come with partial schemas.
-/
import TreeDiff.Json.Parser
import TreeDiff.Log.Event
import TreeDiff.Report
import TreeDiff.Schema.Basic
import TreeDiff.Text.Encoding

namespace TreeDiff.Schema

/-- A part of a descriptor that refers to types. -/
inductive Slot where
  | field (name : String)
  | children
  | subtypes
deriving DecidableEq, Repr

/-- How a slot is called in messages. -/
def Slot.label : Slot → String
  | field name => s!"field '{name}'"
  | children => "children"
  | subtypes => "subtypes"

/-- What can be wrong in a schema. -/
inductive Fault where
  | rootNotList
  | descriptorNotObject (index : Nat)
  | descriptorWithoutType (index : Nat)
  | namedNotBoolean
  | fieldsNotObject
  | subtypesNotList
  | specNotObject (slot : Slot)
  | specWithoutTypes (slot : Slot)
  | flagNotBoolean (slot : Slot) (flag : String)
  | referenceNotObject (slot : Slot)
  | referenceWithoutType (slot : Slot)
  | referenceNamedNotBoolean (slot : Slot)
deriving DecidableEq, Repr

/-- The wording of a fault. -/
def Fault.message : Fault → String
  | rootNotList => "schema root must be a list of node-type descriptors"
  | descriptorNotObject index => s!"descriptor #{index} must be an object"
  | descriptorWithoutType index => s!"descriptor #{index} lacks a 'type' string"
  | namedNotBoolean => "'named' must be a boolean"
  | fieldsNotObject => "'fields' must be an object"
  | subtypesNotList => "'subtypes' must be a list"
  | specNotObject slot => s!"{slot.label}: expected an object"
  | specWithoutTypes slot => s!"{slot.label}: missing 'types' list"
  | flagNotBoolean slot flag => s!"{slot.label}: '{flag}' must be a boolean"
  | referenceNotObject slot => s!"{slot.label}: type reference must be an object"
  | referenceWithoutType slot => s!"{slot.label}: type reference lacks 'type'"
  | referenceNamedNotBoolean slot => s!"{slot.label}: 'named' must be a boolean"

/-- A fault and the node type in whose descriptor it lies, once that is known. -/
structure Malformation where
  fault : Fault
  nodeType : Option String
deriving DecidableEq, Repr

/-- A reference to a node type; it is anonymous unless it says otherwise. -/
def readReference (slot : Slot) (json : Json) : Except Fault TypeRef :=
  match json with
  | .obj members =>
    match members.lookup "type" with
    | some (.str name) =>
      match members.lookup "named" with
      | none => .ok ⟨name, false⟩
      | some (.bool named) => .ok ⟨name, named⟩
      | some _ => .error (.referenceNamedNotBoolean slot)
    | _ => .error (.referenceWithoutType slot)
  | _ => .error (.referenceNotObject slot)

/-- A flag of a field; it is false unless it is given. -/
def readFlag (slot : Slot) (members : List (String × Json)) (flag : String) : Except Fault Bool :=
  match members.lookup flag with
  | none => .ok false
  | some (.bool b) => .ok b
  | some _ => .error (.flagNotBoolean slot flag)

/-- The declaration of a field or of the positional children. -/
def readSpec (slot : Slot) (json : Json) : Except Fault FieldSpec :=
  match json with
  | .obj members =>
    match members.lookup "types" with
    | some (.arr items) => do
      let multiple ← readFlag slot members "multiple"
      let required ← readFlag slot members "required"
      let refs ← items.mapM (readReference slot)
      pure ⟨TypeRef.setOf refs, multiple, required⟩
    | _ => .error (.specWithoutTypes slot)
  | _ => .error (.specNotObject slot)

/-- Whether the type of a descriptor is named, which it must say. -/
def readNamed : Option Json → Except Fault Bool
  | some (.bool b) => .ok b
  | _ => .error .namedNotBoolean

/-- The fields of a descriptor; none if they are absent or null. -/
def readFields : Option Json → Except Fault Fields
  | none => .ok []
  | some .null => .ok []
  | some (.obj members) =>
    members.mapM fun (name, json) => (readSpec (.field name) json).map (name, ·)
  | some _ => .error .fieldsNotObject

/-- The positional children of a descriptor; none if they are absent or null. -/
def readChildren : Option Json → Except Fault (Option FieldSpec)
  | none => .ok none
  | some .null => .ok none
  | some json => (readSpec .children json).map some

/-- The subtypes of a descriptor; none if they are absent or null. -/
def readSubtypes : Option Json → Except Fault (List TypeRef)
  | none => .ok []
  | some .null => .ok []
  | some (.arr items) => items.mapM (readReference .subtypes)
  | some _ => .error .subtypesNotList

/-- The rest of a descriptor whose type is known. -/
def readBody (name : String) (members : List (String × Json)) : Except Fault NodeType := do
  let named ← readNamed (members.lookup "named")
  let fields ← readFields (members.lookup "fields")
  let children ← readChildren (members.lookup "children")
  let subtypes ← readSubtypes (members.lookup "subtypes")
  pure ⟨name, named, fields, children, subtypes⟩

/-- The descriptor at an index. -/
def readDescriptor (index : Nat) (json : Json) : Except Malformation NodeType :=
  match json with
  | .obj members =>
    match members.lookup "type" with
    | some (.str name) =>
      if name.isEmpty then .error ⟨.descriptorWithoutType index, none⟩
      else (readBody name members).mapError fun fault => ⟨fault, some name⟩
    | _ => .error ⟨.descriptorWithoutType index, none⟩
  | _ => .error ⟨.descriptorNotObject index, none⟩

/-- The descriptors from an index on. -/
def readDescriptors (index : Nat) : List Json → Except Malformation (List NodeType)
  | [] => .ok []
  | json :: rest => do
    let definition ← readDescriptor index json
    let definitions ← readDescriptors (index + 1) rest
    pure (definition :: definitions)

/-- The definitions that a JSON value lists, in its order. -/
def readDefinitions : Json → Except Malformation (List NodeType)
  | .arr items => readDescriptors 0 items
  | _ => .error ⟨.rootNotList, none⟩

/-- The report on a malformed schema. -/
def Malformation.report (m : Malformation) (source : Option String) : Report :=
  .malformedSchema m.fault.message m.nodeType source

/-- The schema that a JSON value describes. -/
def ofJson (source : Option String) (json : Json) : Except Report Schema :=
  match readDefinitions json with
  | .ok definitions => .ok (ofDefinitions source definitions)
  | .error m => .error (m.report source)

/-- The component that reads schemas. -/
def readerLogger : String := "loraxmod.schema.reader"

/-- What is logged when a JSON value is read as a schema. -/
def readEvents (source : Option String) (json : Json) : List Log.Event :=
  match readDefinitions json with
  | .ok definitions =>
    [⟨readerLogger, .debug, "schema_loaded", [("source", .ofOption source),
      ("node_types", .nat (ofDefinitions source definitions).types.length)]⟩]
  | .error m =>
    if m.fault = .rootNotList then []
    else [⟨readerLogger, .warning, "schema_malformed", [("source", .ofOption source),
      ("reason", .str (m.report none).message)]⟩]

/-- Why a document holds no JSON value. -/
inductive DocumentFault where
  | undecodable (fault : Text.DecodeFault)
  | ungrammatical (error : Json.ParseError)

/-- The wording of a document fault. -/
def DocumentFault.message : DocumentFault → String
  | undecodable fault => fault.message
  | ungrammatical error => error.message

/-- The report on a document that holds no JSON value. -/
def DocumentFault.report (fault : DocumentFault) (source : Option String) : Report :=
  .malformedSchema s!"invalid JSON: {fault.message}" none source

/-- The JSON value of a document given as bytes. -/
def documentOfBytes (bytes : List UInt8) : Except DocumentFault Json :=
  match Text.decodeDocument bytes with
  | .error fault => .error (.undecodable fault)
  | .ok text => (Json.parse text).mapError .ungrammatical

/-- The JSON value of a document given as text. -/
def documentOfText (text : String) : Except DocumentFault Json :=
  (Json.parse text).mapError .ungrammatical

end TreeDiff.Schema
