/-
# Intents

Grammars name the same part of a construct differently: the name of a function is its `name` in one
grammar, its `declarator` in another and a bare child of type `identifier` in a third.  An intent is
such a part under one name for all grammars.  Each intent has candidates in a fixed order.  It is
bound to the first candidate that is a field of a node type; failing that, to the positional
children of a type, if exactly one candidate is the name of a type that may stand there.
-/
import TreeDiff.Log.Event
import TreeDiff.Schema.Expansion

namespace TreeDiff

/-- A part that constructs of many grammars have. -/
inductive Intent where
  | identifier
  | callable
  | value
  | condition
  | body
  | parameters
  | operator
  | type
deriving DecidableEq, Repr

namespace Intent

/-- All intents, in the order in which they are shown. -/
def all : List Intent :=
  [identifier, callable, value, condition, body, parameters, operator, type]

/-- The name of an intent. -/
def name : Intent → String
  | identifier => "identifier"
  | callable => "callable"
  | value => "value"
  | condition => "condition"
  | body => "body"
  | parameters => "parameters"
  | operator => "operator"
  | type => "type"

/-- The intent with a name. -/
def ofName? (name : String) : Option Intent := all.find? fun intent => intent.name = name

/-- The names that grammars use for an intent, the preferred one first. -/
def candidates : Intent → List String
  | identifier => ["name", "identifier", "declarator", "word"]
  | callable => ["function", "callee", "method", "object"]
  | value => ["value", "initializer", "source", "path"]
  | condition => ["condition", "test", "predicate"]
  | body => ["body", "consequence", "alternative", "block"]
  | parameters => ["parameters", "arguments", "params", "args"]
  | operator => ["operator", "op"]
  | type => ["type", "return_type", "type_annotation"]

end Intent

/-- Where the value of an intent lies in a node. -/
inductive Binding where
  /-- In the child that fills a field. -/
  | field (name : String)
  /-- In the first named child of a type. -/
  | positional (type : String)
deriving DecidableEq, Repr

namespace Binding

/-- The field or the type that is looked for. -/
def name : Binding → String
  | field name => name
  | positional type => type

/-- Whether the children are searched by type. -/
def isPositional : Binding → Bool
  | field _ => false
  | positional _ => true

end Binding

/-- The binding of an intent in a node type with the given fields and positional children. -/
def Intent.bind? (intent : Intent) (fields : Fields) (children : Option FieldSpec) :
    Option Binding :=
  match intent.candidates.find? fun c => fields.any fun entry => entry.1 = c with
  | some name => some (.field name)
  | none =>
    match children with
    | none => none
    | some spec =>
      match intent.candidates.filter spec.allowsName with
      | [found] => some (.positional found)
      | _ => none

namespace Schema

/-- The bound intents of a node type; none for a name without a definition. -/
def bindings (s : Schema) (type : String) : List (Intent × Binding) :=
  let fields := s.fields type
  let children := s.children type
  Intent.all.filterMap fun intent => (intent.bind? fields children).map (intent, ·)

/-- The bound intents of a node type by name, each with the field or type it is bound to. -/
def resolve (s : Schema) (type : String) : List (String × String) :=
  (s.bindings type).map fun (intent, binding) => (intent.name, binding.name)

/-- The component that binds intents. -/
def intentLogger : String := "loraxmod.schema.intents"

/-- What is logged when the intents of all node types are bound. -/
def bindingEvents (s : Schema) : List Log.Event :=
  [⟨intentLogger, .debug, "intents_resolved",
    [("source", .ofOption s.source), ("node_types", .nat s.types.length),
     ("with_intents", .nat (s.names.filter fun type => !(s.bindings type).isEmpty).length)]⟩]

end Schema

/-- The bindings of all node types of a schema, worked out once. -/
structure Resolver where
  schema : Schema
  /-- The bindings of each node type that the schema defines. -/
  table : List (String × List (Intent × Binding))

namespace Resolver

/-- The resolver of a schema. -/
def ofSchema (s : Schema) : Resolver := ⟨s, s.names.map fun type => (type, s.bindings type)⟩

/-- The bound intents of a node type; none for a name that is not in the table. -/
def bindings (r : Resolver) (type : String) : List (Intent × Binding) :=
  (r.table.lookup type).getD []

/-- The bound intents of a node type by name, each with the field or type it is bound to. -/
def resolve (r : Resolver) (type : String) : List (String × String) :=
  (r.bindings type).map fun (intent, binding) => (intent.name, binding.name)

/-- The field or type to which one intent of a node type is bound. -/
def fieldFor (r : Resolver) (type : String) (intent : Intent) : Option String :=
  ((r.bindings type).lookup intent).map (·.name)

end Resolver

end TreeDiff
