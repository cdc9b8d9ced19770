/-
# Where log events go

The settings name outputs, each with a format and a level.  An event is written to every output
whose level it reaches, unless it is below the common level.  If the settings name no output at all,
events are left to the last resort of the program, which writes those that matter to the standard
error output.  A router is set up anew by every call: the handlers of the settings before are
closed, and what was written stays.
-/
import TreeDiff.Failure
import TreeDiff.Log.Line

namespace TreeDiff

/-- The file of a destination that is no stream. -/
def Destination.file? : Destination → Option Path
  | file path => some path
  | _ => none

namespace LogOutput

/-- The least level that is written to an output. -/
def leastLevel (settings : LogSettings) (o : LogOutput) : Log.Level := o.level.getD settings.level

end LogOutput

namespace LogSettings

/-- A single output to the console. -/
def single (level : Log.Level) (format : LogFormat) : LogSettings :=
  ⟨level, [{ LogOutput.usual with format }]⟩

/-- The same outputs, with everything written to all of them. -/
def verbose (settings : LogSettings) : LogSettings :=
  ⟨.debug, settings.outputs.map fun o => { o with level := none }⟩

/-- The file of the first output that is a file. -/
def file? (settings : LogSettings) : Option Path :=
  settings.outputs.findSome? fun o => o.destination.file?

end LogSettings

namespace Log

/-- What has been written to the streams, line by line, and to the files. -/
structure Journal where
  stdout : List String
  stderr : List String
  files : Files

namespace Journal

/-- Nothing has been written yet. -/
def start (files : Files) : Journal := ⟨[], [], files⟩

/-- Write a line; a file that has become unusable is left alone. -/
def write (j : Journal) (line : String) : Destination → Journal
  | .stdout => { j with stdout := j.stdout ++ [line] }
  | .stderr => { j with stderr := j.stderr ++ [line] }
  | .file path =>
    match j.files.append path (Text.Utf8.encode (line ++ "\n")) with
    | .ok files => { j with files }
    | .error _ => j

/-- Open a destination: a file is made with the directories above it. -/
def openDestination (j : Journal) : Destination → Except Failure Journal
  | .stdout => .ok j
  | .stderr => .ok j
  | .file path => do
    let files ← (j.files.makeDirectories path.parent).mapError fun f => .unusable f path.parent
    let files ← (files.append path []).mapError fun f => .unusable f path
    pure { j with files }

end Journal

/-- What a call gives to set up a router: a section of the settings, or else a level and a format
for the console.  Sections are given as an `α`. -/
structure Setup (α : Type) where
  config : Option α
  /-- Whether the console is written in JSON, without a section. -/
  json : Bool
  /-- The common level, without a section. -/
  level : Level
  /-- Whether everything is written everywhere. -/
  verbose : Bool

namespace Setup

/-- The settings of a call that gives no section. -/
def plain {α : Type} (setup : Setup α) : LogSettings :=
  .single setup.level (if setup.json then .json else .console)

/-- The settings that a call gives. -/
def base (setup : Setup LogSettings) : LogSettings := setup.config.getD setup.plain

/-- The settings that a call asks for.  Verbose settings are new ones beside those that were
given. -/
def settings (setup : Setup LogSettings) : LogSettings :=
  if setup.verbose then setup.base.verbose else setup.base

end Setup

/-- An output that is open: where it goes, how it is written, and the least level it takes. -/
structure Handler where
  destination : Destination
  format : LogFormat
  level : Level
deriving DecidableEq, Repr

/-- The line of an event for a destination in a format. -/
def Event.lineFor [Wording] (e : Event) (format : LogFormat) (destination : Destination) : String :=
  Wording.line format destination.file?.isNone e

namespace Handler

/-- Whether a handler takes an event. -/
def takes (e : Event) (h : Handler) : Bool := h.level.rank ≤ e.level.rank

/-- Write an event to where a handler goes. -/
def write [Wording] (e : Event) (j : Journal) (h : Handler) : Journal :=
  j.write (e.lineFor h.format h.destination) h.destination

end Handler

/-- Who is told about events, with what has been written.  Loggers drop what is below their filter,
and the root drops what is below its level before a handler sees it.  Before the first call there is
no filter, and nothing is written. -/
structure Router where
  filter : Option Level
  rootLevel : Level
  handlers : List Handler
  /-- The least level that the last resort writes when there is no handler; a program may do without
  it. -/
  lastResort : Option Level
  /-- The first file of the outputs, which messages point at. -/
  file : Option Path
  journal : Journal

namespace Router

/-- A router that has not been set up. -/
def start (files : Files) (lastResort : Option Level := none) : Router :=
  ⟨none, .warning, [], lastResort, none, .start files⟩

/-- Open an output and add its handler.  The first file is kept in mind before it is opened. -/
def addOutput (settings : LogSettings) (r : Router) (o : LogOutput) : Router × Option Failure :=
  let r := { r with file := r.file.or o.destination.file? }
  match r.journal.openDestination o.destination with
  | .error failure => (r, some failure)
  | .ok journal =>
    let handler : Handler := ⟨o.destination, o.format, o.leastLevel settings⟩
    ({ r with handlers := r.handlers ++ [handler], journal }, none)

/-- Add outputs one after the other, up to the first that cannot be opened. -/
def addOutputs (settings : LogSettings) : Router → List LogOutput → Router × Option Failure
  | r, [] => (r, none)
  | r, o :: rest =>
    match r.addOutput settings o with
    | (r, some failure) => (r, some failure)
    | (r, none) => addOutputs settings r rest

/-- A router whose handlers are closed, at the levels of settings. -/
def reset (r : Router) (settings : LogSettings) : Router :=
  { r with
    filter := some settings.level, rootLevel := settings.level, handlers := [], file := none }

/-- Set up a router by settings, with the failure if an output cannot be opened; then the outputs
before it stay. -/
def configure (r : Router) (settings : LogSettings) : Router × Option Failure :=
  addOutputs settings (r.reset settings) settings.outputs

/-- Whether the loggers and the root let an event pass. -/
def passes (r : Router) (e : Event) : Bool :=
  r.filter.any (fun least => least.rank ≤ e.level.rank) && r.rootLevel.rank ≤ e.level.rank

section

variable [Wording]

/-- Leave an event to the last resort. -/
def resort (r : Router) (e : Event) : Router :=
  if r.lastResort.any fun least => least.rank ≤ e.level.rank then
    { r with journal := r.journal.write (Wording.bare e) .stderr }
  else r

/-- Write an event to the handlers that take it, or to the last resort if there is no handler. -/
def emit (r : Router) (e : Event) : Router :=
  if r.passes e then
    if r.handlers.isEmpty then r.resort e
    else
      { r with journal := (r.handlers.filter (Handler.takes e)).foldl (Handler.write e) r.journal }
  else r

/-- Write events one after the other. -/
def emitAll (r : Router) (events : List Event) : Router := events.foldl emit r

end

end Router

end Log

end TreeDiff
