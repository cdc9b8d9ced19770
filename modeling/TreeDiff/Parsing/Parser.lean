/-
# Parsers

The parser of a language knows its grammar and its schema, and so it leads from a source straight to
what its nodes say, and from two sources to their difference.
-/
import TreeDiff.Log.Operation
import TreeDiff.Parsing.Grammar
import TreeDiff.Schema.Codec
import TreeDiff.Settings.Basic

namespace TreeDiff

/-- Where parsers are made: the files, homes and grammars at hand, and the languages whose grammar
has been loaded. -/
structure Workshop where
  files : Files
  homes : Homes
  grammars : Grammars
  loaded : List String

/-- The parser of a language. -/
structure LanguageParser where
  language : String
  schema : Schema
  settings : Settings
  /-- The root of a source, if it has one. -/
  parse : List UInt8 → Option Node

/-- The source in a file. -/
def Files.source (files : Files) (p : Path) : Logged (List UInt8) :=
  .ofOutcome ((files.read p).mapError fun fault => .unusable fault p)

namespace LanguageParser

/-- The component that parses. -/
def logger : String := "loraxmod.parser"

/-- Make the parser of a language.  Its schema is looked for first, unless a file is given. -/
def create (w : Workshop) (settings : Settings) (name : String) (schemaFile : Option Path) :
    Logged (LanguageParser × Workshop) :=
  match Language.find? name with
  | none => .refuse (.unsupportedLanguage name Grammars.unknownReason)
  | some l => do
    let schema ← Schema.load w.files w.homes settings.schemas l.name schemaFile
    let (grammar, loaded) ← w.grammars.load w.loaded l.name
    Logged.say [⟨logger, .debug, "language_parser_created",
      [("language", .str l.name), ("node_types", .nat schema.types.length)]⟩]
    Logged.say schema.bindingEvents
    pure (⟨l.name, schema, settings, w.grammars.parse grammar⟩, { w with loaded })

/-- The extractor of a parser. -/
def extractor (p : LanguageParser) : Extractor := ⟨p.schema, p.settings.extraction.maxTextLength⟩

/-- The differ of a parser. -/
def differ (p : LanguageParser) : Differ :=
  ⟨p.schema, p.settings.diff.threshold, p.settings.diff.truncateLength⟩

/-- The root of a source that an operation needs. -/
def root (p : LanguageParser) (source : List UInt8) (operation tree : String) : Logged Node :=
  match p.parse source with
  | some node => .result node
  | none =>
    ⟨[⟨logger, .error, "parse_no_root", [("language", .str p.language),
        ("operation", .str operation), ("tree", .str tree)]⟩],
      .error (.reported (.noRoot operation tree))⟩

/-- The root of a source, extracted. -/
def extractRoot (p : LanguageParser) (source : List UInt8) : Logged ExtractedNode := do
  let node ← p.root source "extract_all" "input"
  p.extractor.logRoot (some node)

/-- The named nodes of a source, extracted. -/
def extractAll (p : LanguageParser) (source : List UInt8) : Logged (List ExtractedNode) := do
  let node ← p.root source "extract_all" "input"
  p.extractor.logAll (some node)

/-- The nodes of a source whose type is among the given ones, extracted. -/
def extractByType (p : LanguageParser) (source : List UInt8) (types : List String) :
    Logged (List ExtractedNode) := do
  let node ← p.root source "extract_by_type" "input"
  p.extractor.logByType (some node) types

/-- The difference of two sources.  Texts are shown in full if that is asked for here, or else if
the settings ask for it. -/
def diff (p : LanguageParser) (old new : List UInt8) (fullText : Option Bool) : Logged Diff := do
  let oldRoot ← p.root old "diff" "old"
  let newRoot ← p.root new "diff" "new"
  p.differ.logDiff (fullText.getD p.settings.diff.fullText) (some oldRoot) (some newRoot)

/-- The difference of two files. -/
def diffFiles (p : LanguageParser) (files : Files) (old new : Path) (fullText : Option Bool) :
    Logged Diff := do
  let oldSource ← files.source old
  let newSource ← files.source new
  p.diff oldSource newSource fullText

/-- A parser on one line. -/
def text (p : LanguageParser) : String :=
  s!"LanguageParser({Text.quoted p.language}, schema={p.schema.sourceText})"

end LanguageParser

end TreeDiff
