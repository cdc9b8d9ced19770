/-
# Routing

What a session writes, told from its steps alone.  A call that sets up the log opens its outputs and
adds nothing to them; an event adds one line to each output of the last call that takes it.  Only
when that call names no output does the last resort of the program speak.  Both leave the log as the
last call wants it, so nothing of the calls before has a say, and the objects that were handed over
stay as they were.  How events are put into words makes no difference to any of this.
-/
import TreeDiff.Log.Session
import TreeDiff.Proofs.FileGrowth

namespace TreeDiff.Log

/-! ## What is written -/

/-- A line that is written. -/
inductive Delivery where
  /-- To an output of the settings. -/
  | output (o : LogOutput) (line : String)
  /-- By the last resort, which is no output of any settings. -/
  | lastResort (line : String)
deriving DecidableEq

namespace Delivery

/-- Where the line is written. -/
def destination : Delivery → Destination
  | output o _ => o.destination
  | lastResort _ => .stderr

/-- The line itself. -/
def line : Delivery → String
  | output _ line => line
  | lastResort line => line

end Delivery

/-- The lines that are written to a destination, in their order. -/
def linesTo (destination : Destination) (deliveries : List Delivery) : List String :=
  deliveries.filterMap fun d => if d.destination = destination then some d.line else none

/-- The bytes that are written to the file under names from the root. -/
def bytesUnder (files : Files) (names : List String) (deliveries : List Delivery) : List UInt8 :=
  deliveries.flatMap fun d =>
    match d.destination with
    | .file path =>
      if files.namesOf path = names then Text.Utf8.encode (d.line ++ "\n") else []
    | _ => []

section

variable {destination : Destination} {files : Files} {names : List String} {l m : List Delivery}

@[simp] lemma linesTo_nil : linesTo destination [] = [] := rfl

@[simp] lemma linesTo_append :
    linesTo destination (l ++ m) = linesTo destination l ++ linesTo destination m :=
  List.filterMap_append

@[simp] lemma bytesUnder_nil : bytesUnder files names [] = [] := rfl

@[simp] lemma bytesUnder_append :
    bytesUnder files names (l ++ m) = bytesUnder files names l ++ bytesUnder files names m :=
  List.flatMap_append

end

namespace Journal

variable {j k before middle after : Journal} {d : Destination} {line : String}
  {l m : List Delivery}

/-- The difference of two journals: the streams and files have got these lines at their ends, and
nothing else has changed in them. -/
structure Extends (before after : Journal) (deliveries : List Delivery) : Prop where
  stdout : after.stdout = before.stdout ++ linesTo .stdout deliveries
  stderr : after.stderr = before.stderr ++ linesTo .stderr deliveries
  grows : before.files.Grows after.files
  content : ∀ names, after.files.contentAt names =
    before.files.contentAt names ++ bytesUnder before.files names deliveries

namespace Extends

lemma refl (j : Journal) : j.Extends j [] := by
  refine ⟨?_, ?_, .refl _, fun names => ?_⟩ <;> simp

lemma trans (h : before.Extends middle l) (h' : middle.Extends after m) :
    before.Extends after (l ++ m) where
  stdout := by rw [h'.stdout, h.stdout, linesTo_append, List.append_assoc]
  stderr := by rw [h'.stderr, h.stderr, linesTo_append, List.append_assoc]
  grows := h.grows.trans h'.grows
  content names := by
    -- a path leads to the same place before and after
    have hbytes : bytesUnder middle.files names m = bytesUnder before.files names m := by
      simp only [bytesUnder, h.grows.namesOf_eq]
    rw [h'.content, h.content, hbytes, bytesUnder_append, List.append_assoc]

end Extends

/-- A destination that can be written to: a stream, or a file that is there. -/
def IsReady (j : Journal) (d : Destination) : Prop := ∀ path, d = .file path → j.files.IsOpen path

lemma IsReady.of_extends (h : before.IsReady d) (hext : before.Extends after l) :
    after.IsReady d := by
  intro path hpath
  exact (h path hpath).of_grows hext.grows

/-- A destination that has been opened is ready, and nothing has been written to it. -/
lemma extends_of_openDestination (h : j.openDestination d = .ok k) :
    j.Extends k [] ∧ k.IsReady d := by
  cases d with
  | stdout =>
    cases h
    exact ⟨.refl _, fun _ hpath => by cases hpath⟩
  | stderr =>
    cases h
    exact ⟨.refl _, fun _ hpath => by cases hpath⟩
  | file path =>
    rw [openDestination] at h
    obtain ⟨made, hmade, h⟩ := exists_of_bind_eq_ok h
    obtain ⟨files, hfiles, h⟩ := exists_of_bind_eq_ok h
    cases h
    obtain ⟨hgrows, hcontent⟩ := Files.make_eq_ok (mapError_eq_ok_iff.1 hmade)
    obtain ⟨hgrows', hopen, hcontent'⟩ := Files.append_eq_ok (mapError_eq_ok_iff.1 hfiles)
    refine ⟨⟨by simp, by simp, hgrows.trans hgrows', fun names => ?_⟩, ?_⟩
    · rw [hcontent', hcontent, ite_self, bytesUnder_nil]
    · rintro path' hpath
      cases hpath
      exact hopen

/-- Writing to a destination that is ready adds one line to it. -/
lemma extends_write (d : Delivery) (h : j.IsReady d.destination) :
    j.Extends (j.write d.line d.destination) [d] := by
  cases hd : d.destination with
  | stdout => exact ⟨by simp [write, linesTo, hd], by simp [write, linesTo, hd], .refl _,
      by simp [write, bytesUnder, hd]⟩
  | stderr => exact ⟨by simp [write, linesTo, hd], by simp [write, linesTo, hd], .refl _,
      by simp [write, bytesUnder, hd]⟩
  | file path =>
    obtain ⟨files, hfiles⟩ := (h path hd).exists_append (Text.Utf8.encode (d.line ++ "\n"))
    obtain ⟨hgrows, -, hcontent⟩ := Files.append_eq_ok hfiles
    have hwrite : j.write d.line (.file path) = { j with files } := by rw [write, hfiles]
    rw [hwrite]
    refine ⟨by simp [linesTo, hd], by simp [linesTo, hd], hgrows, fun names => ?_⟩
    rw [hcontent, bytesUnder, List.flatMap_cons, List.flatMap_nil, List.append_nil, hd]

end Journal

/-! ## What a call asks for -/

namespace Setup

variable (setup : Setup LogSettings)

/-- The level of the root: that of the settings, or the least one if everything is to be written. -/
def rootLevel : Level := if setup.verbose then .debug else setup.base.level

/-- The level of an output: its own or else the common one, or the least one if everything is to be
written. -/
def levelOf (o : LogOutput) : Level :=
  if setup.verbose then .debug else o.level.getD setup.base.level

/-- Whether an output is to get an event: the level of the root and that of the output are both at
most that of the event. -/
def wants (e : Event) (o : LogOutput) : Bool :=
  setup.rootLevel.rank ≤ e.level.rank && (setup.levelOf o).rank ≤ e.level.rank

/-- The lines that an event becomes: one in its own format for each output that is to get it; or if
there is no output at all, one of the last resort, from its level on. -/
def deliveries [Wording] (lastResort : Option Level) (e : Event) : List Delivery :=
  if setup.base.outputs.isEmpty then
    if setup.rootLevel.rank ≤ e.level.rank ∧
        lastResort.any fun least => least.rank ≤ e.level.rank then
      [.lastResort (Wording.bare e)]
    else []
  else (setup.base.outputs.filter (setup.wants e)).map fun o =>
    .output o (e.lineFor o.format o.destination)

/-- The handler that a call asks for an output. -/
def handlerOf (o : LogOutput) : Handler := ⟨o.destination, o.format, setup.levelOf o⟩

lemma level_settings : setup.settings.level = setup.rootLevel := by
  rw [settings, rootLevel]
  split <;> rfl

/-- Verbose settings have the outputs that were given, each at the least level. -/
lemma map_outputs_settings :
    (setup.settings.outputs.map fun o =>
      (⟨o.destination, o.format, o.leastLevel setup.settings⟩ : Handler)) =
        setup.base.outputs.map setup.handlerOf := by
  rw [settings]
  cases hverbose : setup.verbose with
  | false => simp [handlerOf, levelOf, LogOutput.leastLevel, hverbose]
  | true => simp [handlerOf, levelOf, LogOutput.leastLevel, LogSettings.verbose, hverbose]

lemma file?_settings : setup.settings.file? = setup.base.file? := by
  rw [settings]
  cases setup.verbose with
  | false => rfl
  | true =>
    rw [if_pos rfl, LogSettings.verbose, LogSettings.file?, List.findSome?_map]
    rfl

end Setup

namespace Router

variable {r r' : Router} {setup : Setup LogSettings} {settings : LogSettings}
  {outputs : List LogOutput} {lastResort : Option Level}

/-- A router that is as a call wants it, whatever it was before.  The last resort is not up to the
call. -/
structure IsSetUpBy (r : Router) (lastResort : Option Level) (setup : Setup LogSettings) :
    Prop where
  filter : r.filter = some setup.rootLevel
  rootLevel : r.rootLevel = setup.rootLevel
  handlers : r.handlers = setup.base.outputs.map setup.handlerOf
  lastResort : r.lastResort = lastResort
  file : r.file = setup.base.file?
  isReady : ∀ handler ∈ r.handlers, r.journal.IsReady handler.destination

/-- Outputs that could all be added have a handler each, behind those that were there. -/
lemma addOutputs_eq (h : addOutputs settings r outputs = (r', none)) :
    r'.filter = r.filter ∧ r'.rootLevel = r.rootLevel ∧ r'.lastResort = r.lastResort ∧
    r'.handlers = r.handlers ++
      outputs.map (fun o => ⟨o.destination, o.format, o.leastLevel settings⟩) ∧
    r'.file = r.file.or (outputs.findSome? fun o => o.destination.file?) ∧
    r.journal.Extends r'.journal [] ∧ ∀ o ∈ outputs, r'.journal.IsReady o.destination := by
  induction outputs generalizing r with
  | nil =>
    cases h
    exact ⟨rfl, rfl, rfl, (List.append_nil _).symm, by simp, .refl _, by simp⟩
  | cons o rest ih =>
    rw [addOutputs, addOutput] at h
    cases hopen : r.journal.openDestination o.destination with
    | error failure => simp [hopen] at h
    | ok journal =>
      simp only [hopen] at h
      obtain ⟨hext, hready⟩ := Journal.extends_of_openDestination hopen
      obtain ⟨hfilter, hroot, hresort, hhandlers, hfile, hrest, hall⟩ := ih h
      refine ⟨hfilter, hroot, hresort, by simp [hhandlers], ?_, hext.trans hrest,
        fun other hother => ?_⟩
      · rw [hfile, List.findSome?_cons, Option.or_assoc]
        cases o.destination.file? <;> rfl
      · rcases List.mem_cons.1 hother with rfl | hother
        · exact hready.of_extends hrest
        · exact hall other hother

/-- A call that succeeds leaves the router as it wants it, and writes nothing. -/
lemma isSetUpBy_of_configure (h : r.configure setup.settings = (r', none)) :
    r'.IsSetUpBy r.lastResort setup ∧ r.journal.Extends r'.journal [] := by
  obtain ⟨hfilter, hroot, hresort, hhandlers, hfile, hext, hready⟩ := addOutputs_eq h
  -- the call starts with no handler and no file, so all there is comes from its outputs
  have hsetup : r'.handlers = setup.base.outputs.map setup.handlerOf := by
    rw [hhandlers, ← setup.map_outputs_settings]
    rfl
  refine ⟨⟨?_, ?_, hsetup, hresort, ?_, fun handler hhandler => ?_⟩, hext⟩
  · rw [hfilter, ← setup.level_settings]
    rfl
  · rw [hroot, ← setup.level_settings]
    rfl
  · rw [hfile, ← setup.file?_settings]
    rfl
  · rw [hsetup, ← setup.map_outputs_settings] at hhandler
    obtain ⟨o, ho, rfl⟩ := List.mem_map.1 hhandler
    exact hready o ho

lemma IsSetUpBy.passes_eq (h : r.IsSetUpBy lastResort setup) (e : Event) :
    r.passes e = decide (setup.rootLevel.rank ≤ e.level.rank) := by
  simp [passes, h.filter, h.rootLevel]

/-- Writing to more ends than there were leaves the router as it was set up. -/
lemma IsSetUpBy.of_extends (h : r.IsSetUpBy lastResort setup) {journal : Journal}
    {written : List Delivery} (hext : r.journal.Extends journal written) :
    IsSetUpBy { r with journal } lastResort setup :=
  ⟨h.filter, h.rootLevel, h.handlers, h.lastResort, h.file, fun handler hhandler =>
    (h.isReady handler hhandler).of_extends hext⟩

/-- The handlers that take an event are those of the outputs that are to get it. -/
lemma filter_takes {e : Event} (hroot : setup.rootLevel.rank ≤ e.level.rank) :
    (setup.base.outputs.map setup.handlerOf).filter (Handler.takes e) =
      (setup.base.outputs.filter (setup.wants e)).map setup.handlerOf := by
  have hwants : setup.wants e = Handler.takes e ∘ setup.handlerOf := by
    funext o
    rw [Setup.wants, decide_eq_true hroot, Bool.true_and]
    rfl
  rw [List.filter_map, hwants]

section

variable [Wording]

/-- Writing an event to the handlers of outputs adds one line to each of them, in their order. -/
lemma extends_foldl_write {j : Journal} (setup : Setup LogSettings) (e : Event)
    (outputs : List LogOutput) (h : ∀ o ∈ outputs, j.IsReady o.destination) :
    j.Extends ((outputs.map setup.handlerOf).foldl (Handler.write e) j)
      (outputs.map fun o => .output o (e.lineFor o.format o.destination)) := by
  induction outputs generalizing j with
  | nil => exact .refl j
  | cons o rest ih =>
    have hwrite := Journal.extends_write (.output o (e.lineFor o.format o.destination))
      (h o List.mem_cons_self)
    -- the outputs behind the first one find their destinations as ready as they were
    have hrest := ih (j := Handler.write e j (setup.handlerOf o)) fun other hother =>
      (h other (List.mem_cons_of_mem _ hother)).of_extends hwrite
    exact hwrite.trans hrest

/-- Without outputs, an event is left to the last resort. -/
lemma IsSetUpBy.resort (h : r.IsSetUpBy lastResort setup) (e : Event)
    (hroot : setup.rootLevel.rank ≤ e.level.rank) (hempty : setup.base.outputs = []) :
    r.journal.Extends (r.resort e).journal (setup.deliveries lastResort e) ∧
      (r.resort e).IsSetUpBy lastResort setup := by
  obtain rfl := h.lastResort
  rw [Router.resort, Setup.deliveries, hempty]
  cases hreaches : r.lastResort.any fun least => least.rank ≤ e.level.rank with
  | true =>
    have hext := Journal.extends_write (j := r.journal) (.lastResort (Wording.bare e))
      fun _ hpath => Destination.noConfusion hpath
    simp only [List.isEmpty_nil, if_true, hroot, true_and]
    exact ⟨hext, h.of_extends hext⟩
  | false =>
    simp only [List.isEmpty_nil, if_true, Bool.false_eq_true, and_false, if_false]
    exact ⟨.refl _, h⟩

/-- An event adds the lines that it becomes, and leaves the router as it was set up. -/
lemma IsSetUpBy.emit (h : r.IsSetUpBy lastResort setup) (e : Event) :
    (r.emit e).IsSetUpBy lastResort setup ∧
      r.journal.Extends (r.emit e).journal (setup.deliveries lastResort e) := by
  have hisEmpty : r.handlers.isEmpty = setup.base.outputs.isEmpty := by
    rw [h.handlers, List.isEmpty_map]
  rw [Router.emit, h.passes_eq, hisEmpty]
  by_cases hroot : setup.rootLevel.rank ≤ e.level.rank
  · rw [if_pos (decide_eq_true hroot)]
    cases hempty : setup.base.outputs.isEmpty with
    | true =>
      rw [if_pos rfl]
      exact (h.resort e hroot (List.isEmpty_iff.1 hempty)).symm
    | false =>
      have hext := extends_foldl_write (j := r.journal) setup e
        (setup.base.outputs.filter (setup.wants e)) fun o ho => h.isReady (setup.handlerOf o)
          (h.handlers ▸ List.mem_map_of_mem (List.mem_of_mem_filter ho))
      have htakes : r.handlers.filter (Handler.takes e) =
          (setup.base.outputs.filter (setup.wants e)).map setup.handlerOf := by
        rw [h.handlers, filter_takes hroot]
      rw [if_neg Bool.false_ne_true, htakes, Setup.deliveries, hempty, if_neg Bool.false_ne_true]
      exact ⟨h.of_extends hext, hext⟩
  · rw [if_neg (by simpa using hroot)]
    have hnone : setup.deliveries lastResort e = [] := by
      simp [Setup.deliveries, Setup.wants, hroot]
    rw [hnone]
    exact ⟨h, .refl _⟩

end

end Router

/-! ## Objects -/

lemma getElem?_of_prefix {α : Type} {known all : List α} {i : Nat} (h : known <+: all)
    (hi : i < known.length) : all[i]? = known[i]? := by
  obtain ⟨more, rfl⟩ := h
  exact List.getElem?_append_left hi

/-- The numbers of items that are added to a list lead to these items. -/
lemma filterMap_range'_append {α : Type} (known new : List α) :
    (List.range' known.length new.length).filterMap (fun i => (known ++ new)[i]?) = new := by
  induction new generalizing known with
  | nil => rfl
  | cons a rest ih =>
    have hrest := ih (known ++ [a])
    rw [List.append_assoc, List.length_append, List.length_singleton] at hrest
    rw [List.length_cons, List.range'_succ, List.filterMap_cons_some (b := a) (by simp)]
    exact congrArg _ hrest

namespace Shelf

variable {shelf before middle after : Shelf} {number : Nat} {settings : LogSettings}
  {call : Setup Nat}

/-- The objects of one shelf stand on another as they were, perhaps with new ones behind them. -/
structure Keeps (before after : Shelf) : Prop where
  outputs : before.outputs <+: after.outputs
  sections : before.sections <+: after.sections

namespace Keeps

lemma refl (shelf : Shelf) : shelf.Keeps shelf := ⟨List.prefix_rfl, List.prefix_rfl⟩

lemma trans (h : before.Keeps middle) (h' : middle.Keeps after) : before.Keeps after :=
  ⟨h.outputs.trans h'.outputs, h.sections.trans h'.sections⟩

/-- A section that is kept holds what it held. -/
lemma settings?_eq (h : before.Keeps after) (hnumber : number < before.sections.length) :
    after.settings? number = before.settings? number := by
  rw [settings?, settings?, getElem?_of_prefix h.sections hnumber,
    List.getElem?_eq_getElem hnumber]
  -- the numbers in a section lead to outputs that were there when it was made
  have hknown := before.known _ (List.getElem_mem hnumber)
  refine congrArg some (congrArg _ (List.filterMap_congr fun n hn => ?_))
  exact getElem?_of_prefix h.outputs (hknown n hn)

end Keeps

lemma keeps_add (shelf : Shelf) (settings : LogSettings) : shelf.Keeps (shelf.add settings).1 :=
  ⟨List.prefix_append _ _, List.prefix_append _ _⟩

/-- New objects hold what they were made for. -/
lemma settings?_add (shelf : Shelf) (settings : LogSettings) :
    (shelf.add settings).1.settings? (shelf.add settings).2 = some settings := by
  simp [add, settings?, filterMap_range'_append]

end Shelf

/-- A call, with what the section that it hands over holds. -/
def Setup.on (shelf : Shelf) (call : Setup Nat) : Setup LogSettings :=
  ⟨call.config.bind shelf.settings?, call.json, call.level, call.verbose⟩

namespace Shelf

variable {shelf before middle after : Shelf} {number : Nat} {settings : LogSettings}
  {call : Setup Nat}

lemma Keeps.on_eq (h : before.Keeps after) (hcall : ∀ n ∈ call.config, n < before.sections.length) :
    call.on after = call.on before := by
  rw [Setup.on, Setup.on]
  cases hconfig : call.config with
  | none => rfl
  | some n => rw [Option.bind_some, Option.bind_some, h.settings?_eq (hcall n hconfig)]

lemma keeps_given (shelf : Shelf) (call : Setup Nat) : shelf.Keeps (shelf.given call).1 := by
  rw [given]
  split
  · exact .refl shelf
  · exact shelf.keeps_add _

lemma settings?_given (h : (shelf.given call).1.settings? (shelf.given call).2 = some settings) :
    settings = (call.on shelf).base := by
  rw [Setup.base, Setup.on]
  rw [given] at h
  cases hconfig : call.config with
  | some n =>
    rw [hconfig] at h
    rw [Option.bind_some, h]
    rfl
  | none =>
    rw [hconfig, settings?_add] at h
    cases h
    rfl

/-- The section by which a call sets up the log holds what the call asks for, and no object that was
there is touched for it. -/
lemma prepare_eq_some (h : shelf.prepare call = some (after, number))
    (hsettings : after.settings? number = some settings) :
    shelf.Keeps after ∧ settings = (call.on shelf).settings := by
  have hverbose : (call.on shelf).verbose = call.verbose := rfl
  rw [Setup.settings, hverbose]
  simp only [prepare] at h
  cases hcall : call.verbose with
  | true =>
    rw [hcall, if_pos rfl] at h
    obtain ⟨base, hbase, hadd⟩ := Option.map_eq_some_iff.1 h
    have hkeeps := (shelf.keeps_given call).trans (keeps_add _ base.verbose)
    have hnew := settings?_add (shelf.given call).1 base.verbose
    rw [hadd] at hkeeps hnew
    rw [hsettings] at hnew
    rw [if_pos rfl, ← settings?_given hbase]
    exact ⟨hkeeps, Option.some.inj hnew⟩
  | false =>
    rw [hcall, if_neg Bool.false_ne_true] at h
    cases h
    exact ⟨shelf.keeps_given call, settings?_given hsettings⟩

end Shelf

/-! ## Sessions -/

namespace Session

variable {s t original : Session} {call first : Setup Nat} {setup : Setup LogSettings} {e : Event}
  {steps rest : List Step}

/-- A call that succeeds sets up the router by what the section held that was handed over, writes
nothing, and touches no object. -/
lemma configure_eq_some (h : s.configure call = some t) :
    t.router.IsSetUpBy s.router.lastResort (call.on s.shelf) ∧
      s.router.journal.Extends t.router.journal [] ∧ s.shelf.Keeps t.shelf := by
  rw [configure] at h
  obtain ⟨⟨shelf, number⟩, hprepare, h⟩ := Option.bind_eq_some_iff.1 h
  obtain ⟨settings, hsettings, h⟩ := Option.bind_eq_some_iff.1 h
  obtain ⟨hkeeps, rfl⟩ := Shelf.prepare_eq_some hprepare hsettings
  cases hrouter : s.router.configure (call.on s.shelf).settings with
  | mk router failure =>
    rw [hrouter] at h
    cases failure with
    | some failure => cases h
    | none =>
      cases h
      obtain ⟨hsetup, hext⟩ := Router.isSetUpBy_of_configure hrouter
      exact ⟨hsetup, hext, hkeeps⟩

/-- The call that sets up the log last, with what its section held at the start. -/
def lastCall (shelf : Shelf) (setup : Setup LogSettings) : List Step → Setup LogSettings
  | [] => setup
  | .configure call :: rest => lastCall shelf (call.on shelf) rest
  | .emit _ :: rest => lastCall shelf setup rest

/-- The sections that are handed over are there. -/
def Hands (shelf : Shelf) (steps : List Step) : Prop :=
  ∀ call, .configure call ∈ steps → ∀ number ∈ call.config, number < shelf.sections.length

section

variable [Wording]

/-- The lines that the events of a session become, each by the call before it. -/
def deliveries (lastResort : Option Level) (shelf : Shelf) (setup : Setup LogSettings) :
    List Step → List Delivery
  | [] => []
  | .configure call :: rest => deliveries lastResort shelf (call.on shelf) rest
  | .emit e :: rest => setup.deliveries lastResort e ++ deliveries lastResort shelf setup rest

/-- What steps make of a session. -/
structure Follows (lastResort : Option Level) (shelf : Shelf) (setup : Setup LogSettings)
    (steps : List Step) (s t : Session) : Prop where
  /-- The handlers, the levels and the file of the log are those of the last call. -/
  router : t.router.IsSetUpBy lastResort (lastCall shelf setup steps)
  /-- The streams and the files have got the lines of the events, and nothing else. -/
  journal : s.router.journal.Extends t.router.journal (deliveries lastResort shelf setup steps)
  /-- Every object is as it was. -/
  keeps : s.shelf.Keeps t.shelf

/-- The run lemma: what `setup` has made of the router carries each event to the next call. -/
lemma follows_run {lastResort : Option Level} {shelf : Shelf} (hsteps : Hands shelf steps)
    (hshelf : shelf.Keeps s.shelf) (hs : s.router.IsSetUpBy lastResort setup)
    (h : s.run steps = some t) : Follows lastResort shelf setup steps s t := by
  induction steps generalizing s setup with
  | nil =>
    cases h
    exact ⟨hs, .refl _, .refl _⟩
  | cons step rest ih =>
    have hrest : Hands shelf rest := fun call hcall => hsteps call (List.mem_cons_of_mem _ hcall)
    rw [run, List.foldlM_cons] at h
    obtain ⟨u, hstep, hrun⟩ := Option.bind_eq_some_iff.1 h
    cases step with
    | configure call =>
      -- the section that is handed over holds what it held on the first shelf
      have hcall := hsteps call List.mem_cons_self
      obtain ⟨hsetup, hext, hkeeps⟩ := configure_eq_some hstep
      rw [hshelf.on_eq hcall, hs.lastResort] at hsetup
      obtain ⟨hlast, hjournal, hshelf'⟩ := ih hrest (hshelf.trans hkeeps) hsetup hrun
      exact ⟨hlast, hext.trans hjournal, hkeeps.trans hshelf'⟩
    | emit e =>
      cases hstep
      obtain ⟨hsetup, hext⟩ := hs.emit e
      obtain ⟨hlast, hjournal, hshelf'⟩ := ih (s := s.emit e) hrest hshelf hsetup hrun
      exact ⟨hlast, hext.trans hjournal, hshelf'⟩

end

/-- A section with the console and a file that takes errors alone, and a section without outputs. -/
def errorsToFile : Shelf where
  outputs := [⟨.console, .stderr, none⟩, ⟨.json, .file ⟨.root, ["var", "tree.log"]⟩, some .error⟩]
  sections := [(.warning, [0, 1]), (.info, [])]
  known := by decide

/-- A session that has not set up its log yet. -/
def beforeCalls : Session := ⟨errorsToFile, .start ⟨[], []⟩ (some .warning)⟩

/-- A call that makes the first section verbose. -/
def verboseCall : Setup Nat := ⟨some 0, false, .warning, true⟩

/-- A call that takes the section without outputs. -/
def mutingCall : Setup Nat := ⟨some 1, false, .warning, false⟩

/-- Two trees have been matched. -/
def matched : Event := ⟨"diff", .debug, "matched", []⟩

/-- A node has an unknown type. -/
def unknown : Event := ⟨"diff", .warning, "unknown", []⟩

/-- An event, a call that takes the section as it stands, two more events, and the same events after
a call without outputs. -/
def quietAfterVerbose : List Step :=
  [.emit matched, .configure { verboseCall with verbose := false }, .emit matched, .emit unknown,
    .configure mutingCall, .emit matched, .emit unknown]

end Session

end TreeDiff.Log
