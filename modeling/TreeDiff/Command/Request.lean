/-
# What is asked for

The words of a command line make up a request.  Its options are looked at first, the files that they
name included, then its arguments one after the other.
-/
import TreeDiff.Command.Usage
import TreeDiff.Files.Tree

namespace TreeDiff.Command

/-- How sources are read. -/
structure Reading where
  /-- The language that was named. -/
  language : Option String
  /-- The file of the schema that was named. -/
  schema : Option Path
deriving DecidableEq, Repr

/-- Which nodes are extracted. -/
inductive Scope where
  | root
  | all
  | types (names : List String)
deriving DecidableEq, Repr

/-- How a comparison is shown. -/
inductive Shape where
  | changes (withPlace : Bool)
  | summary
  | table
deriving DecidableEq, Repr

/-- What is asked for. -/
inductive Request where
  | resolve (schema : Path) (types : List String)
  | extract (source : Path) (reading : Reading) (scope : Scope)
  | diff (old new : Path) (reading : Reading) (fullText : Bool) (shape : Shape)
deriving DecidableEq, Repr

/-- Whether a text that names a path ends with a slash, or with a dot after one; such a path can
only lead to a directory. -/
def endsAsDirectory (name : String) : Bool :=
  match (Path.splitSlashes name.toList).reverse with
  | last :: _ :: _ => !Path.isName last
  | _ => false

/-- The path of a file that has been named. -/
def namedFile (files : Files) (place name : String) : Except UsageFault Path :=
  let p := Path.ofText name
  if name.isEmpty then .error (.file place .absent name)
  else match files.look p with
    | .error _ => .error (.file place .absent name)
    | .ok .directory => .error (.file place .isDirectory name)
    | .ok (.file _) =>
      if endsAsDirectory name then .error (.file place .absent name) else .ok p

/-- The first word as a file, with the words after it. -/
def takeFile (files : Files) (argument : String) (words : List String) :
    Except UsageFault (Path × List String) :=
  match words with
  | [] => .error (.missingArgument argument)
  | word :: rest => (namedFile files (argumentName argument) word).map (·, rest)

/-- Nothing may be left. -/
def takeNothing (words : List String) : Except UsageFault Unit :=
  if words.isEmpty then .ok () else .error (.tooMany words)

/-- How sources are read according to the options. -/
def readingOf (files : Files) (w : Words) : Except UsageFault Reading := do
  let language := (w.value? .language).filter fun name => !name.isEmpty
  match w.value? .schema with
  | none => pure ⟨language, none⟩
  | some name => pure ⟨language, some (← namedFile files (optionName schemaForm) name)⟩

/-- Which nodes are extracted according to the options. -/
def scopeOf (w : Words) : Scope :=
  if w.has .type then .types (w.values .type) else if w.has .recurse then .all else .root

/-- How a comparison is shown according to the options. -/
def shapeOf (w : Words) : Shape :=
  if w.has .table then .table else if w.has .summary then .summary else .changes (w.has .metadata)

/-- A request to bind the intents of a schema. -/
def resolveRequest (files : Files) (w : Words) : Except UsageFault Request := do
  let (schema, types) ← takeFile files "SCHEMA" w.plain
  pure (.resolve schema types)

/-- A request to extract nodes of a source. -/
def extractRequest (files : Files) (w : Words) : Except UsageFault Request := do
  let reading ← readingOf files w
  let (source, rest) ← takeFile files "FILE" w.plain
  takeNothing rest
  pure (.extract source reading (scopeOf w))

/-- A request to compare two sources. -/
def diffRequest (files : Files) (w : Words) : Except UsageFault Request := do
  let reading ← readingOf files w
  let (old, rest) ← takeFile files "OLD" w.plain
  let (new, rest) ← takeFile files "NEW" rest
  takeNothing rest
  pure (.diff old new reading (w.has .fullText) (shapeOf w))

end TreeDiff.Command
