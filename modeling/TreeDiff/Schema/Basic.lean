/-
# Node-type schemas

A schema lists the node types of a grammar.  A node type declares named fields and positional
children, or it is abstract: it stands for its subtypes and never occurs in a tree.
-/
import TreeDiff.Text.Order

namespace TreeDiff

/-- A reference to a node type, named or anonymous. -/
structure TypeRef where
  name : String
  named : Bool
deriving DecidableEq, Repr

namespace TypeRef

/-- Whether a reference comes before another: by name, and anonymous before named. -/
def before (a b : TypeRef) : Bool :=
  Text.before a.name b.name || (a.name == b.name && !a.named && b.named)

/-- Put a reference into an ordered list of references, unless it is there. -/
def insert (ref : TypeRef) : List TypeRef → List TypeRef
  | [] => [ref]
  | r :: rest =>
    if ref = r then r :: rest
    else if before ref r then ref :: r :: rest
    else r :: insert ref rest

/-- The set of the given references as an ordered list. -/
def setOf (refs : List TypeRef) : List TypeRef := refs.foldr insert []

end TypeRef

/-- What may fill a field, or stand among the positional children. -/
structure FieldSpec where
  /-- The set of allowed types, in order and without repetition. -/
  types : List TypeRef
  multiple : Bool
  required : Bool
deriving DecidableEq, Repr

namespace FieldSpec

/-- What two declarations of one field allow together: the types of either, many if either allows
many, and required only if both require it. -/
def merge (a b : FieldSpec) : FieldSpec :=
  ⟨TypeRef.setOf (a.types ++ b.types), a.multiple || b.multiple, a.required && b.required⟩

/-- Whether a type of the given name is allowed. -/
def allowsName (spec : FieldSpec) (name : String) : Bool :=
  spec.types.any fun ref => ref.name = name

end FieldSpec

/-- The fields of a node type, in the order of their declaration. -/
abbrev Fields := List (String × FieldSpec)

/-- The definition of a node type. -/
structure NodeType where
  name : String
  named : Bool
  fields : Fields
  /-- The positional children. -/
  children : Option FieldSpec
  subtypes : List TypeRef
deriving DecidableEq, Repr

/-- Whether a node type is abstract. -/
def NodeType.isSupertype (t : NodeType) : Bool := !t.subtypes.isEmpty

/-- The node types of a grammar, each name once, and where they were read from. -/
structure Schema where
  source : Option String
  types : List NodeType
deriving DecidableEq, Repr

namespace Schema

/-- Add a definition.  The first definition of a name stays, unless it is anonymous and the new one
is named: a grammar may list a keyword token and a rule under one name. -/
def keep (types : List NodeType) (definition : NodeType) : List NodeType :=
  match types with
  | [] => [definition]
  | t :: rest =>
    if t.name = definition.name then
      (if definition.named && !t.named then definition else t) :: rest
    else t :: keep rest definition

/-- The schema of a list of definitions in which names may be repeated. -/
def ofDefinitions (source : Option String) (definitions : List NodeType) : Schema :=
  ⟨source, definitions.foldl keep []⟩

/-- The definition of a name. -/
def get? (s : Schema) (name : String) : Option NodeType :=
  s.types.find? fun t => t.name = name

/-- Whether a name is defined. -/
def contains (s : Schema) (name : String) : Bool := (s.get? name).isSome

/-- The names of all node types, in the order of their first definition. -/
def names (s : Schema) : List String := s.types.map (·.name)

/-- The names of the direct subtypes of a node type. -/
def subtypes (s : Schema) (name : String) : List String :=
  match s.get? name with
  | some t => t.subtypes.map (·.name)
  | none => []

/-- Whether a name is defined as an abstract node type. -/
def isSupertype (s : Schema) (name : String) : Bool :=
  match s.get? name with
  | some t => t.isSupertype
  | none => false

end Schema

end TreeDiff
