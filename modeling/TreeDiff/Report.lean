/-
# Error reports

Everything that can be wrong with a schema, a tree or the settings is reported in one form: a code,
a message for people, and the facts as JSON.
-/
import TreeDiff.Json.Basic

namespace TreeDiff

/-- What kind of error is reported. -/
inductive Code where
  | schemaMalformed
  | schemaNotFound
  | treeNoRoot
  | treeUnsupportedLanguage
  | configParseError
  | configInvalidValue
deriving DecidableEq, Repr

namespace Code

/-- All codes. -/
def all : List Code :=
  [schemaMalformed, schemaNotFound, treeNoRoot, treeUnsupportedLanguage, configParseError,
   configInvalidValue]

/-- The number of a code; the thousands tell schema, tree and settings apart. -/
def number : Code → Nat
  | schemaMalformed => 1001
  | schemaNotFound => 1002
  | treeNoRoot => 2001
  | treeUnsupportedLanguage => 2002
  | configParseError => 3001
  | configInvalidValue => 3002

/-- The name of a code. -/
def name : Code → String
  | schemaMalformed => "SCHEMA_MALFORMED"
  | schemaNotFound => "SCHEMA_NOT_FOUND"
  | treeNoRoot => "TREE_NO_ROOT"
  | treeUnsupportedLanguage => "TREE_UNSUPPORTED_LANGUAGE"
  | configParseError => "CONFIG_PARSE_ERROR"
  | configInvalidValue => "CONFIG_INVALID_VALUE"

end Code

/-- A reported error. -/
structure Report where
  code : Code
  message : String
  /-- Whether trying again may help. -/
  retryable : Bool
  /-- The facts behind the message. -/
  details : List (String × Json)

namespace Report

/-- The report on one line. -/
def text (r : Report) : String := s!"[{r.code.number}] {r.code.name}: {r.message}"

/-- The members of the report. -/
def members (r : Report) : List (String × Json) :=
  [("code", .nat r.code.number), ("error", .str r.code.name), ("message", .str r.message),
   ("retryable", .bool r.retryable), ("details", .obj r.details)]

/-- The report as JSON. -/
def toJson (r : Report) : Json := .obj r.members

/-- A schema is malformed, in the definition of a node type if one is named. -/
def malformedSchema (reason : String) (nodeType source : Option String) : Report :=
  let place := match nodeType with
    | some t => if t.isEmpty then "" else s!" in '{t}'"
    | none => ""
  ⟨.schemaMalformed, s!"Malformed schema{place}: {reason}", false,
    [("reason", .str reason), ("node_type", .ofOption nodeType), ("source", .ofOption source)]⟩

/-- No schema of a language exists at any of the places tried. -/
def schemaNotFound (language : String) (tried : List String) : Report :=
  ⟨.schemaNotFound, s!"Schema not found for '{language}' (tried {tried.length} locations)", false,
    [("language", .str language), ("tried", .strings tried)]⟩

/-- A tree that an operation needs has no root. -/
def noRoot (operation tree : String) : Report :=
  ⟨.treeNoRoot, s!"{operation}: {tree} tree has no root node", false,
    [("operation", .str operation), ("tree", .str tree)]⟩

/-- Sources of a language cannot be parsed. -/
def unsupportedLanguage (language reason : String) : Report :=
  ⟨.treeUnsupportedLanguage, s!"Language '{language}' is not available: {reason}", false,
    [("language", .str language), ("reason", .str reason)]⟩

/-- A settings file is not in its format. -/
def unreadableSettings (path reason : String) : Report :=
  ⟨.configParseError, s!"Failed to parse config at {path}: {reason}", false,
    [("path", .str path), ("reason", .str reason)]⟩

/-- A setting has a value that it cannot have; `value` is the value as it is shown. -/
def invalidSetting (field value reason : String) : Report :=
  ⟨.configInvalidValue, s!"Invalid value for '{field}': {reason}", false,
    [("field", .str field), ("value", .str value), ("reason", .str reason)]⟩

end Report

end TreeDiff
