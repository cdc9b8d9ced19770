/-
# Grammars

The grammar of a language is an entry point of a package, and packages may or may not be installed.
What a grammar makes of a source is a tree; it may also make nothing of it.
-/
import TreeDiff.Language
import TreeDiff.Log.Logged

namespace TreeDiff

/-- A grammar by the place where it is found. -/
structure Grammar where
  package : String
  entryPoint : String
deriving DecidableEq, Repr

/-- The grammar of a language. -/
def Language.grammar (l : Language) : Grammar := ⟨l.package, l.entryPoint⟩

/-- The grammars that are at hand. -/
structure Grammars where
  /-- The entry points of the packages that are installed. -/
  installed : List (String × List String)
  /-- The tree of a source under a grammar, if it has a root. -/
  parse : Grammar → List UInt8 → Option Node

namespace Grammars

/-- Whether a grammar is installed. -/
def provides (g : Grammars) (grammar : Grammar) : Bool :=
  match g.installed.lookup grammar.package with
  | some entryPoints => entryPoints.contains grammar.entryPoint
  | none => false

/-- The component that loads grammars. -/
def logger : String := "loraxmod.tree.treesitter"

/-- Why a language without a grammar is not available. -/
def unknownReason : String := "no grammar registered for this id"

/-- Why a language whose grammar is not installed is not available. -/
def absentReason (grammar : Grammar) : String :=
  s!"grammar package '{grammar.package}' is not installed"

/-- Load the grammar of a language, unless the language is among those whose grammar has been
loaded.  The result are the languages whose grammar is loaded now. -/
def load (g : Grammars) (loaded : List String) (name : String) : Logged (Grammar × List String) :=
  match Language.find? name with
  | none => .refuse (.unsupportedLanguage name unknownReason)
  | some l =>
    if loaded.contains l.name then .result (l.grammar, loaded)
    else if g.provides l.grammar then
      ⟨[⟨logger, .debug, "grammar_loaded",
        [("language", .str l.name), ("module", .str l.package)]⟩],
        .ok (l.grammar, loaded ++ [l.name])⟩
    else .refuse (.unsupportedLanguage name (absentReason l.grammar))

end Grammars

end TreeDiff
