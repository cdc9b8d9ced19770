/-
# Fields of abstract node types

An abstract node type has the fields that its subtypes have, and theirs in turn.  Subtypes may refer
to each other in a circle: a definition is not entered again below itself.
-/
import TreeDiff.Schema.Basic

namespace TreeDiff

/-- Add declarations of fields to others, merging those of one name. -/
def mergeFields (fields more : Fields) : Fields :=
  more.foldl put fields
where
  /-- Add one declaration. -/
  put (fields : Fields) (entry : String × FieldSpec) : Fields :=
    match fields with
    | [] => [entry]
    | (name, spec) :: rest =>
      if name = entry.1 then (name, spec.merge entry.2) :: rest
      else (name, spec) :: put rest entry

/-- Join the positional children of two subtypes. -/
def mergeChildren : Option FieldSpec → Option FieldSpec → Option FieldSpec
  | none, spec => spec
  | spec, none => spec
  | some a, some b => some (a.merge b)

namespace NodeType

/-- The definitions that are left when a name is taken out. -/
def without (types : List NodeType) (name : String) : List NodeType :=
  types.filter fun t => t.name ≠ name

theorem length_without_lt {types : List NodeType} {name : String} {t : NodeType}
    (h : types.find? (fun t => t.name = name) = some t) :
    (without types name).length < types.length := by
  have hmem := List.mem_of_find?_eq_some h
  have hname := List.find?_some h
  simp only [decide_eq_true_eq] at hname
  exact List.length_filter_lt_length_iff_exists.2 ⟨t, hmem, by simp [hname]⟩

/-- The fields of a node type, given the definitions that may still be entered. -/
def expandFields (types : List NodeType) (name : String) : Fields :=
  match h : types.find? (fun t => t.name = name) with
  | none => []
  | some t =>
    if t.isSupertype then
      have := length_without_lt h
      t.subtypes.foldl
        (fun fields ref => mergeFields fields (expandFields (without types name) ref.name)) []
    else t.fields
termination_by types.length

/-- The positional children of a node type, given the definitions that may still be entered. -/
def expandChildren (types : List NodeType) (name : String) : Option FieldSpec :=
  match h : types.find? (fun t => t.name = name) with
  | none => none
  | some t =>
    if t.isSupertype then
      have := length_without_lt h
      t.subtypes.foldl
        (fun spec ref => mergeChildren spec (expandChildren (without types name) ref.name)) none
    else t.children
termination_by types.length

end NodeType

namespace Schema

/-- The fields of a node type; none for a name without a definition. -/
def fields (s : Schema) (name : String) : Fields := NodeType.expandFields s.types name

/-- The positional children of a node type. -/
def children (s : Schema) (name : String) : Option FieldSpec :=
  NodeType.expandChildren s.types name

end Schema

end TreeDiff
