/-
# Schemas as JSON

How the parts of a schema are shown.
-/
import TreeDiff.Json.Basic
import TreeDiff.Schema.Basic
import TreeDiff.Text.Quoted

namespace TreeDiff

/-- A reference as a pair. -/
def TypeRef.toJson (r : TypeRef) : Json := .arr [.str r.name, .bool r.named]

/-- The declaration of a field. -/
def FieldSpec.toJson (spec : FieldSpec) : Json :=
  .obj [("types", .arr (spec.types.map TypeRef.toJson)), ("multiple", .bool spec.multiple),
    ("required", .bool spec.required)]

/-- The declaration of a field, or null. -/
def FieldSpec.optional : Option FieldSpec → Json
  | some spec => spec.toJson
  | none => .null

/-- The declarations of fields by name. -/
def Fields.toJson (fields : Fields) : Json :=
  .obj (fields.map fun (name, spec) => (name, spec.toJson))

/-- The definition of a node type. -/
def NodeType.toJson (t : NodeType) : Json :=
  .obj [("type", .str t.name), ("named", .bool t.named), ("fields", Fields.toJson t.fields),
    ("children", FieldSpec.optional t.children), ("subtypes", .arr (t.subtypes.map TypeRef.toJson)),
    ("is_supertype", .bool t.isSupertype)]

namespace Schema

/-- The place that a schema was read from, as it is shown. -/
def sourceText (s : Schema) : String :=
  match s.source with
  | some name => Text.quoted name
  | none => "None"

/-- A schema on one line. -/
def text (s : Schema) : String :=
  s!"SchemaReader(source={s.sourceText}, node_types={s.types.length})"

end Schema

end TreeDiff
