/-
# Parsers for all files

A pool makes the parser of a language when it is first asked for, and keeps it.
-/
import TreeDiff.Parsing.Parser

namespace TreeDiff

/-- The parsers that have been made, by language, with what is needed to make others. -/
structure ParserPool where
  settings : Settings
  /-- The schema files of languages whose schema is not looked for. -/
  schemaFiles : List (String × Path)
  parsers : List (String × LanguageParser)

namespace ParserPool

/-- A pool without parsers. -/
def empty (settings : Settings) (schemaFiles : List (String × Path)) : ParserPool :=
  ⟨settings, schemaFiles, []⟩

/-- The id under which the parser of a language is kept. -/
def keyOf (name : String) : String :=
  match Language.find? name with
  | some l => l.name
  | none => name

/-- A parser with the pool and the workshop as they are after it was asked for. -/
structure Taken where
  parser : LanguageParser
  pool : ParserPool
  workshop : Workshop

/-- The parser of a language. -/
def get (pool : ParserPool) (w : Workshop) (name : String) : Logged Taken :=
  let key := keyOf name
  match pool.parsers.lookup key with
  | some parser => .result ⟨parser, pool, w⟩
  | none => do
    let (parser, w) ← LanguageParser.create w pool.settings key (pool.schemaFiles.lookup key)
    pure ⟨parser, { pool with parsers := pool.parsers ++ [(key, parser)] }, w⟩

/-- The parser of the language of a file, by the ending of its name. -/
def forFile (pool : ParserPool) (w : Workshop) (p : Path) : Logged Taken :=
  match Language.ofPath? p with
  | some l => pool.get w l.name
  | none => .refuse (.unsupportedLanguage p.text
      s!"no language registered for extension '{p.suffix}'")

/-- What is done with the parser of a file, with the pool and the workshop after it.  A parser that
was made for it is kept, whatever becomes of the work. -/
def withFile {α : Type} (pool : ParserPool) (w : Workshop) (p : Path)
    (work : LanguageParser → Logged α) : ParserPool × Workshop × Logged α :=
  let taken := pool.forFile w p
  match taken.outcome with
  | .error failure => (pool, w, ⟨taken.events, .error failure⟩)
  | .ok t =>
    let done := work t.parser
    (t.pool, t.workshop, ⟨taken.events ++ done.events, done.outcome⟩)

/-- The root of a file, extracted. -/
def extractFile (pool : ParserPool) (w : Workshop) (p : Path) :
    ParserPool × Workshop × Logged ExtractedNode :=
  pool.withFile w p fun parser => do
    let source ← w.files.source p
    parser.extractRoot source

/-- The named nodes of a file, extracted. -/
def extractAllOfFile (pool : ParserPool) (w : Workshop) (p : Path) :
    ParserPool × Workshop × Logged (List ExtractedNode) :=
  pool.withFile w p fun parser => do
    let source ← w.files.source p
    parser.extractAll source

/-- The difference of two files; the language is that of the first. -/
def diffFiles (pool : ParserPool) (w : Workshop) (old new : Path) (fullText : Option Bool) :
    ParserPool × Workshop × Logged Diff :=
  pool.withFile w old fun parser => parser.diffFiles w.files old new fullText

/-- The languages whose parser has been made, in order. -/
def languages (pool : ParserPool) : List String := Text.sorted (pool.parsers.map (·.1))

end ParserPool

end TreeDiff
