/-
# How the commands are used

The commands with their options and arguments, their help, and what is said when they are used in
another way.
-/
import TreeDiff.Command.Words
import TreeDiff.Text.Quoted

namespace TreeDiff

/-- The commands. -/
inductive Command where
  /-- The command under which the others stand. -/
  | main
  | diff
  | extract
  | resolve
deriving DecidableEq, Repr

namespace Command

/-- The commands that stand under the main one. -/
def subcommands : List Command := [diff, extract, resolve]

/-- The word that calls a command, after the name of the program. -/
def word : Command → String
  | main => ""
  | diff => "diff"
  | extract => "extract"
  | resolve => "resolve"

/-- The command that a word calls. -/
def ofWord? (w : String) : Option Command := subcommands.find? fun c => c.word = w

/-- What a command does, in a sentence. -/
def purpose : Command → String
  | main => "Schema-driven extraction and semantic diff of source trees."
  | diff => "Semantic diff from OLD to NEW as JSON."
  | extract => "Extract canonical intents from FILE as JSON."
  | resolve => "Print intent -> field bindings for NODE_TYPES in SCHEMA."

/-- The arguments of a command as its usage shows them. -/
def argumentLine : Command → String
  | main => "[OPTIONS] COMMAND [ARGS]..."
  | diff => "[OPTIONS] OLD NEW"
  | extract => "[OPTIONS] FILE"
  | resolve => "[OPTIONS] SCHEMA [NODE_TYPES]..."

/-- The option that asks for help. -/
def helpForm : OptionForm := ⟨.help, none, "help", false⟩

/-- The option that names the language of the sources. -/
def languageForm : OptionForm := ⟨.language, some 'l', "language", true⟩

/-- The option that names the file of the schema. -/
def schemaForm : OptionForm := ⟨.schema, some 's', "schema", true⟩

/-- The options of a command. -/
def forms : Command → List OptionForm
  | main => [⟨.version, none, "version", false⟩, ⟨.verbose, some 'v', "verbose", false⟩, helpForm]
  | diff =>
    [languageForm, schemaForm, ⟨.fullText, none, "full-text", false⟩,
      ⟨.metadata, none, "metadata", false⟩, ⟨.summary, none, "summary", false⟩,
      ⟨.table, none, "table", false⟩, helpForm]
  | extract =>
    [languageForm, schemaForm, ⟨.recurse, some 'r', "recurse", false⟩,
      ⟨.type, some 't', "type", true⟩, helpForm]
  | resolve => [helpForm]

/-- What an option does, in a phrase. -/
def optionPurpose : Topic → String
  | .version => "Show the version and exit."
  | .verbose => "Enable debug logging"
  | .help => "Show this message and exit."
  | .language => "Language id (default: detected from the file extension)"
  | .schema => "node-types.json to use instead of the configured lookup"
  | .recurse => "Extract every named node, in pre-order"
  | .type => "Only extract nodes of this type (repeatable)"
  | .fullText => "Do not truncate old/new values"
  | .metadata => "Include old/new paths and line numbers"
  | .summary => "Print only change counts"
  | .table => "Print a table instead of JSON"

/-- A command with the name of the program before it. -/
def call (program : String) : Command → String
  | main => program
  | c => s!"{program} {c.word}"

/-- The line that shows how a command is used. -/
def usageLine (program : String) (c : Command) : String := s!"Usage: {c.call program} {c.argumentLine}"

/-- Entries under each other, what they mean beside them. -/
def entryLines (entries : List (String × String)) : List String :=
  let width := (entries.map (·.1.length)).foldl max 0
  entries.map fun (name, meaning) =>
    "  " ++ name ++ String.ofList (List.replicate (width + 2 - name.length) ' ') ++ meaning

/-- The help of a command. -/
def help (program : String) (c : Command) : String :=
  let options := c.forms.map fun form => (", ".intercalate form.names, optionPurpose form.topic)
  let commands := match c with
    | main => "" :: "Commands:" :: entryLines (subcommands.map fun s => (s.word, s.purpose))
    | _ => []
  let lines := [c.usageLine program, "", "  " ++ c.purpose, "", "Options:"] ++ entryLines options ++
    commands
  "\n".intercalate lines ++ "\n"

/-- The line that tells the version. -/
def versionLine : String := "lorax, version 0.1.0\n"

end Command

/-- Why a file that was named cannot be used. -/
inductive Command.FileFault where
  | absent
  | isDirectory
deriving DecidableEq, Repr

/-- Why a command line cannot be followed. -/
inductive Command.UsageFault where
  | words (fault : WordFault)
  | noCommand
  | unknownCommand (name : String) (similar : List String)
  | missingArgument (name : String)
  /-- A file named in place of an argument or an option, with the name as it was given. -/
  | file (place : String) (fault : FileFault) (name : String)
  | tooMany (words : List String)
deriving DecidableEq, Repr

namespace Command

/-- The text of a fault of a file. -/
def FileFault.message (name : String) : FileFault → String
  | absent => s!"File {Text.quoted name} does not exist."
  | isDirectory => s!"File {Text.quoted name} is a directory."

/-- Names that may have been meant, after the name that was given. -/
def suggestion : List String → String
  | [] => ""
  | [name] => s!" Did you mean {Text.quoted name}?"
  | names =>
    let all := ", ".intercalate (names.map Text.quoted)
    s!" (Did you mean one of: {all}?)"

/-- The text of a fault of a word. -/
def WordFault.message : WordFault → String
  | unknownOption name similar => s!"No such option {Text.quoted name}.{suggestion similar}"
  | missingValue name => s!"Option {Text.quoted name} requires an argument."
  | needlessValue name => s!"Option {Text.quoted name} does not take a value."

/-- The name of an argument in messages. -/
def argumentName (name : String) : String := s!"'{name}'"

/-- The name of an option in messages. -/
def optionName (form : OptionForm) : String := " / ".intercalate (form.names.map argumentName)

namespace UsageFault

/-- The text of a fault. -/
def message : UsageFault → String
  | words fault => fault.message
  | noCommand => "Missing command."
  | unknownCommand name similar => s!"No such command {Text.quoted name}.{suggestion similar}"
  | missingArgument name => s!"Missing argument {argumentName name}."
  | file place fault name => s!"Invalid value for {place}: {fault.message name}"
  | tooMany [word] => s!"Got unexpected extra argument ({word})"
  | tooMany several =>
    let shown := " ".intercalate several
    s!"Got unexpected extra arguments ({shown})"

/-- Whether the usage of the command is shown with the fault. -/
def showsUsage : UsageFault → Bool
  | words (.missingValue _) => false
  | words (.needlessValue _) => false
  | _ => true

/-- What is written when a command is used wrongly. -/
def report (program : String) (c : Command) (fault : UsageFault) : String :=
  let usage := if fault.showsUsage then
      s!"{c.usageLine program}\nTry '{c.call program} --help' for help.\n\n"
    else ""
  s!"{usage}Error: {fault.message}\n"

end UsageFault

end Command

end TreeDiff
