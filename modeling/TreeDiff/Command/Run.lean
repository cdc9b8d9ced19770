/-
# Running commands

A command line is read, the settings are loaded, and what is asked for is answered.  What the work
has to say goes to the log; the answer or the reason why there is none is written last.
-/
import TreeDiff.Command.Request
import TreeDiff.Console.Layout
import TreeDiff.Diff.Table
import TreeDiff.Log.Router
import TreeDiff.Parsing.Parser
import TreeDiff.Settings.Load

namespace TreeDiff.Command

/-- What a command finds when it is called. -/
structure Surroundings where
  /-- The name under which the program was called. -/
  program : String
  files : Files
  homes : Homes
  /-- The file of settings of the user. -/
  userFile : Path
  environment : Variables
  grammars : Grammars

namespace Surroundings

/-- The file of settings of the project, which is the working directory. -/
def projectFile (s : Surroundings) : Path := Settings.projectFile ⟨.root, s.files.workingDirectory⟩

/-- Where the settings come from; nothing is given besides the files and the variables. -/
def sources (s : Surroundings) : Settings.Sources :=
  ⟨s.files, s.homes, s.userFile, s.projectFile, s.environment, [], []⟩

/-- The settings that are in force. -/
def settings [Coercions] [Reader] (s : Surroundings) : Except Failure Settings :=
  Settings.load s.sources

end Surroundings

/-- How a command ends. -/
inductive Ending where
  /-- With a text. -/
  | answered (text : String)
  /-- With the help of the main command, because nothing at all was asked for. -/
  | unasked
  /-- With a fault in the way in which a command is used. -/
  | misused (command : Command) (fault : UsageFault)
  /-- With a message. -/
  | refused (message : String)
  /-- With a failure that no message tells about. -/
  | failed (failure : Failure)

namespace Ending

/-- The exit status of an ending. -/
def status : Ending → Nat
  | answered _ => 0
  | unasked => 2
  | misused _ _ => 2
  | refused _ => 1
  | failed _ => 1

/-- What an ending writes to the standard output. -/
def output : Ending → String
  | answered text => text
  | _ => ""

/-- What an ending writes to the standard error output. -/
def complaint (program : String) : Ending → String
  | answered _ => ""
  | unasked => main.help program
  | misused command fault => fault.report program command
  | refused message => s!"Error: {message}\n"
  | failed _ => ""

end Ending

/-- A command that has ended, with what was logged on the way. -/
structure Outcome where
  ending : Ending
  journal : Log.Journal

/-! ## The main command -/

/-- A call of a subcommand. -/
structure Call where
  verbose : Bool
  command : Command
  words : List String
deriving DecidableEq, Repr

/-- What an option does that is obeyed before anything else. -/
def eager? (program : String) (c : Command) (o : GivenOption) : Option Ending :=
  match o.topic with
  | .version => some (.answered versionLine)
  | .help => some (.answered (c.help program))
  | _ => none

/-- Tell the words of a command apart, and obey the first of its options that comes before anything
else. -/
def readWords (program : String) (c : Command) (words : List String) : Except Ending Words :=
  match Words.read c.forms (c ≠ main) words with
  | .error fault => .error (.misused c (.words fault))
  | .ok w =>
    match w.options.findSome? (eager? program c) with
    | some ending => .error ending
    | none => .ok w

/-- Read the words of the main command.  An unknown command that looks like an option is read as one
after all. -/
def readCall (program : String) (args : List String) : Except Ending Call := do
  if args.isEmpty then throw .unasked
  let w ← readWords program main args
  match w.plain with
  | [] => throw (.misused main .noCommand)
  | word :: rest =>
    match ofWord? word with
    | some command => pure ⟨w.has .verbose, command, rest⟩
    | none =>
      let _ ← readWords program main w.plain
      let similar := similarNames word (subcommands.map Command.word)
      throw (.misused main (.unknownCommand word similar))

/-- Read the words of a subcommand.  The main command alone asks for nothing. -/
def readRequest (s : Surroundings) (call : Call) : Except Ending Request := do
  let w ← readWords s.program call.command call.words
  let request : Except UsageFault Request := match call.command with
    | .main => .error .noCommand
    | .resolve => resolveRequest s.files w
    | .extract => extractRequest s.files w
    | .diff => diffRequest s.files w
  request.mapError (.misused call.command)

/-! ## Answers -/

/-- A value as it is printed. -/
def printed (json : Json) : String := Json.render .page json ++ "\n"

/-- The intents of a node type by name. -/
def intentsJson (resolver : Resolver) (type : String) : Json :=
  .obj ((resolver.resolve type).map fun (intent, name) => (intent, .str name))

/-- The intents of node types: of the given ones, or else of all that have intents, sorted. -/
def bindingsJson (resolver : Resolver) (types : List String) : Json :=
  if types.isEmpty then
    let bound := resolver.schema.names.filter fun type => !(resolver.resolve type).isEmpty
    .obj ((Text.sorted bound).map fun type => (type, intentsJson resolver type))
  else .obj (types.eraseDups.map fun type => (type, intentsJson resolver type))

/-- The answer of the command `resolve`. -/
def answerResolve (s : Surroundings) (file : Path) (types : List String) : Logged String := do
  let schema ← Schema.ofFile s.files file
  Logged.say schema.bindingEvents
  pure (printed (bindingsJson (.ofSchema schema) types))

/-- The parser of sources that are read in a language. -/
def parserOf (s : Surroundings) (settings : Settings) (language : String) (schema : Option Path) :
    Logged LanguageParser := do
  let (parser, _) ← LanguageParser.create ⟨s.files, s.homes, s.grammars, []⟩ settings language schema
  pure parser

/-- An extracted node as JSON. -/
def nodeJson (n : ExtractedNode) : Json := .obj n.members

/-- The answer of the command `extract`. -/
def answerExtract (s : Surroundings) (parser : LanguageParser) (file : Path) (scope : Scope) :
    Logged String := do
  let source ← s.files.source file
  match scope with
  | .root => do
    let node ← parser.extractRoot source
    pure (printed (nodeJson node))
  | .all => do
    let nodes ← parser.extractAll source
    pure (printed (.arr (nodes.map nodeJson)))
  | .types names => do
    let nodes ← parser.extractByType source names
    pure (printed (.arr (nodes.map nodeJson)))

/-- The widths of the columns of a table of changes, as far as they are fixed. -/
def columnWidths : List (Option Nat) := [some 6, none, none, none]

section

variable [Console]

/-- A comparison as a table, unless the markup of a cell is wrong. -/
def tableText (d : Diff) : Logged String :=
  let rows := d.table.titles :: d.table.rows.map (·.cells)
  match rows.mapM fun row => row.mapM Console.read with
  | some shown => .result (Console.layout columnWidths shown)
  | none => .fail .brokenMarkup

/-- A comparison as it is shown. -/
def shown (shape : Shape) (d : Diff) : Logged String :=
  match shape with
  | .table => tableText d
  | .summary => .result (printed d.summaryJson)
  | .changes withPlace => .result (printed (d.toJson withPlace))

/-- The answer of the command `diff`. -/
def answerDiff (s : Surroundings) (parser : LanguageParser) (old new : Path) (fullText : Bool)
    (shape : Shape) : Logged String := do
  let d ← parser.diffFiles s.files old new (if fullText then some true else none)
  shown shape d

end

/-- The language of a source: the one that was named, or else that of the ending of its name. -/
def languageOf (file : Path) (reading : Reading) : Except Ending String :=
  match reading.language with
  | some name => .ok name
  | none =>
    match Language.ofPath? file with
    | some l => .ok l.name
    | none => .error (.refused
        s!"Cannot detect language for '{file.name}'. Pass --language explicitly.")

/-- The answer to a request. -/
def answer [Console] (s : Surroundings) (settings : Settings) (request : Request) :
    Except Ending (Logged String) :=
  match request with
  | .resolve schema types => .ok (answerResolve s schema types)
  | .extract source reading scope => do
    let language ← languageOf source reading
    pure do
      let parser ← parserOf s settings language reading.schema
      answerExtract s parser source scope
  | .diff old new reading fullText shape => do
    let language ← languageOf old reading
    pure do
      let parser ← parserOf s settings language reading.schema
      answerDiff s parser old new fullText shape

/-! ## Running -/

/-- The component that runs commands. -/
def logger : String := "loraxmod.cli.utils"

/-- What is logged about a report that ends a command. -/
def failedEvent (r : Report) : Log.Event := ⟨logger, .error, "command_failed", r.members⟩

section

variable [Log.Wording]

/-- The end of a command by a failure.  A report is logged and shown, with the file of the log if
there is one. -/
def endWith (router : Log.Router) (failure : Failure) : Outcome :=
  match failure with
  | .reported r =>
    let router := router.emit (failedEvent r)
    let message := match router.file with
      | none => r.text
      | some file => s!"{r.text}\nSee {file.text} for details."
    ⟨.refused message, router.journal⟩
  | other => ⟨.failed other, router.journal⟩

variable [Console]

/-- Answer a request. -/
def follow (s : Surroundings) (settings : Settings) (router : Log.Router) (request : Request) :
    Outcome :=
  match answer s settings request with
  | .error ending => ⟨ending, router.journal⟩
  | .ok logged =>
    let router := router.emitAll logged.events
    match logged.outcome with
    | .ok text => ⟨.answered text, router.journal⟩
    | .error failure => endWith router failure

/-- Call a subcommand. -/
def perform [Coercions] [Reader] (s : Surroundings) (call : Call) : Outcome :=
  let router := Log.Router.start s.files (some .warning)
  match s.settings with
  | .error failure => endWith router failure
  | .ok settings =>
    let setup : Log.Setup LogSettings := ⟨some settings.logging, false, .warning, call.verbose⟩
    match router.configure setup.settings with
    | (router, some failure) => ⟨.failed failure, router.journal⟩
    | (router, none) =>
      match readRequest s call with
      | .error ending => ⟨ending, router.journal⟩
      | .ok request => follow s settings router request

/-- Run a command line. -/
def run [Coercions] [Reader] (s : Surroundings) (args : List String) : Outcome :=
  match readCall s.program args with
  | .error ending => ⟨ending, .start s.files⟩
  | .ok call => perform s call

end

end TreeDiff.Command
