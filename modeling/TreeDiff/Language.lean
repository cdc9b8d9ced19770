/-
# Languages

The languages that sources may be written in: how their files end, and which grammar package parses
them.  Some grammars are published under other ids than the language has here; these are its
aliases.
-/
import TreeDiff.Files.Path
import TreeDiff.Text.Order

namespace TreeDiff

/-- A language. -/
structure Language where
  /-- The id, in lower case and without punctuation. -/
  name : String
  /-- The endings of its files, with their dots, in order. -/
  extensions : List String
  /-- The package of its grammar. -/
  package : String
  /-- The entry point of the grammar in its package. -/
  entryPoint : String
  /-- The other ids of its grammar. -/
  aliases : List String
deriving DecidableEq, Repr

namespace Language

/-- A language whose grammar has the usual entry point and no other ids. -/
def usual (name : String) (extensions : List String) (package : String) : Language :=
  ⟨name, extensions, package, "language", []⟩

/-- All languages, in the order in which their endings are listed. -/
def all : List Language :=
  [usual "javascript" [".cjs", ".js", ".jsx", ".mjs"] "tree_sitter_javascript",
   ⟨"typescript", [".cts", ".mts", ".ts"], "tree_sitter_typescript", "language_typescript", []⟩,
   ⟨"tsx", [".tsx"], "tree_sitter_typescript", "language_tsx", []⟩,
   usual "python" [".py", ".pyi"] "tree_sitter_python",
   usual "rust" [".rs"] "tree_sitter_rust",
   usual "go" [".go"] "tree_sitter_go",
   usual "c" [".c", ".h"] "tree_sitter_c",
   usual "cpp" [".cc", ".cpp", ".cxx", ".hh", ".hpp"] "tree_sitter_cpp",
   ⟨"csharp", [".cs", ".csx"], "tree_sitter_c_sharp", "language", ["c-sharp", "c_sharp"]⟩,
   usual "css" [".css"] "tree_sitter_css",
   usual "html" [".htm", ".html"] "tree_sitter_html",
   usual "bash" [".bash", ".sh"] "tree_sitter_bash",
   usual "java" [".java"] "tree_sitter_java",
   usual "ruby" [".rb"] "tree_sitter_ruby",
   ⟨"php", [".php"], "tree_sitter_php", "language_php", []⟩,
   usual "swift" [".swift"] "tree_sitter_swift",
   usual "json" [".json"] "tree_sitter_json",
   usual "powershell" [".ps1", ".psd1", ".psm1"] "tree_sitter_powershell",
   usual "r" [".r"] "tree_sitter_r"]

/-- A text in lower case.  Ids and endings are written in ASCII, and no letter outside ASCII has a
lower case that occurs in them, so the other letters may stay as they are. -/
def lower (text : String) : String := text.map Char.toLower

/-- The language with an id or an alias, in any case. -/
def find? (name : String) : Option Language :=
  let key := lower name
  match all.find? fun l => l.name = key with
  | some l => some l
  | none => all.find? fun l => l.aliases.contains key

/-- The language of a file ending, in any case. -/
def ofSuffix? (suffix : String) : Option Language :=
  all.find? fun l => l.extensions.contains (lower suffix)

/-- The language of a file, by the ending of its name. -/
def ofPath? (p : Path) : Option Language := ofSuffix? p.suffix

/-- All ids that the grammar of a language is published under, its own id first; an unknown id has
only itself. -/
def grammarNames (name : String) : List String :=
  match find? name with
  | some l => l.name :: l.aliases
  | none => [name]

/-- The ids of all languages, in order. -/
def names : List String := Text.sorted (all.map (·.name))

/-- All file endings with the ids of their languages. -/
def extensionTable : List (String × String) :=
  all.flatMap fun l => l.extensions.map fun ending => (ending, l.name)

end Language

end TreeDiff
