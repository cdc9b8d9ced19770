/-
# Finding schemas

The schema of a language lies in a directory of schemas under the id of the language, or in a
directory of grammars next to the sources of its grammar.  All ids of the grammar are tried, the one
that was asked for first.
-/
import TreeDiff.Language
import TreeDiff.Log.Logged
import TreeDiff.Schema.Reader

namespace TreeDiff.Schema

/-- The name that grammars give to the file of their schema. -/
def fileName : String := "node-types.json"

/-- The directories that are searched for schemas. -/
structure SearchPath where
  /-- The directories that hold a schema per language. -/
  schemas : List Path
  /-- The directories that hold a grammar per language. -/
  grammars : List Path
deriving Repr

/-- The ids under which the schema of a language is looked for. -/
def soughtNames (language : String) : List String :=
  language :: (Language.grammarNames language).filter (· ≠ language)

/-- All places where the schema of a language is looked for, in order. -/
def candidates (homes : Homes) (search : SearchPath) (language : String) :
    Except UnknownHome (List Path) := do
  let schemas ← search.schemas.mapM (Path.expandHome homes)
  let grammars ← search.grammars.mapM (Path.expandHome homes)
  pure <| (soughtNames language).flatMap fun name =>
    schemas.map (fun d => d.child s!"{name}.json") ++
      grammars.map fun d => ((d.child s!"tree-sitter-{name}").child "src").child fileName

/-- The component that finds schemas. -/
def lookupLogger : String := "loraxmod.schema.loader"

/-- The file of the schema of a language: the given one, or else the first candidate that is a
file. -/
def find (files : Files) (homes : Homes) (search : SearchPath) (language : String)
    (given : Option Path) : Logged Path :=
  match given with
  | some p =>
    if files.isFile p then .result p else .refuse (.schemaNotFound language [p.text])
  | none =>
    match candidates homes search language with
    | .error home => .fail (.unknownHome home)
    | .ok tried =>
      match tried.find? files.isFile with
      | some p => .result p
      | none =>
        ⟨[⟨lookupLogger, .warning, "schema_not_found",
            [("language", .str language), ("tried", .nat tried.length)]⟩],
          .error (.reported (.schemaNotFound language (tried.map Path.text)))⟩

/-- The failure of a document that holds no JSON value. -/
def DocumentFault.failure (source : Option String) : DocumentFault → Failure
  | .ungrammatical ⟨.integerTooLong, offset, line, column⟩ =>
    .ungrammatical ⟨.integerTooLong, offset, line, column⟩
  | fault => .reported (fault.report source)

/-- Read a schema from a file. -/
def ofFile (files : Files) (p : Path) : Logged Schema :=
  let source := some p.text
  match files.read p with
  | .error .absent => .refuse (.schemaNotFound p.stem [p.text])
  | .error fault =>
    .refuse (.malformedSchema s!"unreadable schema file: {fault.message p}" none source)
  | .ok content =>
    match documentOfBytes content with
    | .error fault => .fail (fault.failure source)
    | .ok json => ⟨readEvents source json, (ofJson source json).mapError .reported⟩

/-- Find and read the schema of a language. -/
def load (files : Files) (homes : Homes) (search : SearchPath) (language : String)
    (given : Option Path) : Logged Schema := do
  let p ← find files homes search language given
  let schema ← ofFile files p
  Logged.say [⟨lookupLogger, .info, "schema_loaded",
    [("language", .str language), ("path", .str p.text), ("node_types", .nat schema.types.length)]⟩]
  pure schema

end TreeDiff.Schema
