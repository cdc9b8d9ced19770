/-
# A pool keeps the first parser of each language

A pool is called for ids, aliases and files in any order, while files and grammars come and go and
calls fail.  Whatever the call, it does one thing to the pool: the language that is asked for is
enrolled, that is, if the pool has no parser for it and one can be made, this one is kept.  So after
a run the pool holds, under the id of each language, the first parser that could be made when the
language was asked for, and from then on it gives this one out.
-/
import Mathlib.Data.List.Nodup
import TreeDiff.Parsing.Pool
import TreeDiff.Proofs.TextOrder

namespace TreeDiff

/-! ## Spellings -/

namespace Language

variable {name : String} {l : Language}

/-- Whether a text is the id of a language or one of its aliases, in any case. -/
def Spells (name : String) (l : Language) : Prop := lower name = l.name ∨ lower name ∈ l.aliases

/-- **A language is found by its spellings,** and by nothing else. -/
theorem find?_eq_some_iff : find? name = some l ↔ l ∈ all ∧ Spells name l := by
  have hid : ∀ l ∈ all, all.find? (fun m => m.name = l.name) = some l := by decide +kernel
  have halias : ∀ l ∈ all, ∀ key ∈ l.aliases, all.find? (fun m => m.name = key) = none ∧
      all.find? (fun m => m.aliases.contains key) = some l := by decide +kernel
  rw [find?, Spells]
  generalize lower name = key
  constructor
  · intro hfind
    cases hname : all.find? fun m => m.name = key with
    | some m =>
      simp only [hname, Option.some.injEq] at hfind
      rw [hfind] at hname
      have hkey : l.name = key := by simpa using List.find?_some hname
      exact ⟨List.mem_of_find?_eq_some hname, Or.inl hkey.symm⟩
    | none =>
      simp only [hname] at hfind
      exact ⟨List.mem_of_find?_eq_some hfind, Or.inr (by simpa using List.find?_some hfind)⟩
  · rintro ⟨hl, rfl | hkey⟩
    · simp only [hid l hl]
    · simp only [halias l hl key hkey]

/-- The id of a language spells it. -/
lemma find?_name (h : l ∈ all) : find? l.name = some l := by
  have hself : ∀ l ∈ all, lower l.name = l.name := by decide +kernel
  exact find?_eq_some_iff.2 ⟨h, Or.inl (hself l h)⟩

lemma mem_of_ofPath? {p : Path} (h : ofPath? p = some l) : l ∈ all := by
  rw [ofPath?, ofSuffix?] at h
  exact List.mem_of_find?_eq_some h

end Language

namespace ParserPool

/-! ## Calls -/

/-- What a pool is called for. -/
inductive Call where
  | get (name : String)
  | forFile (p : Path)
  | extractFile (p : Path) (recurse : Bool)
  | diffFiles (old new : Path) (fullText : Option Bool)

/-- A call, with the files, homes and grammars as they are at its time. -/
structure Turn where
  workshop : Workshop
  call : Call

/-- What is left of a pool that was asked for a parser: without a parser it stays as it was. -/
def kept (pool : ParserPool) (taken : Logged Taken) : ParserPool :=
  match taken.outcome with
  | .ok t => t.pool
  | .error _ => pool

/-- The pool after a call, whether that succeeds or not. -/
def after (pool : ParserPool) (w : Workshop) : Call → ParserPool
  | .get name => pool.kept (pool.get w name)
  | .forFile p => pool.kept (pool.forFile w p)
  | .extractFile p false => (pool.extractFile w p).1
  | .extractFile p true => (pool.extractAllOfFile w p).1
  | .diffFiles old new fullText => (pool.diffFiles w old new fullText).1

/-- The pool after one call after another. -/
def afterAll (pool : ParserPool) (turns : List Turn) : ParserPool :=
  turns.foldl (fun pool turn => pool.after turn.workshop turn.call) pool

/-- The language that a call asks for, if there is one. -/
def Call.language? : Call → Option Language
  | .get name => Language.find? name
  | .forFile p => Language.ofPath? p
  | .extractFile p _ => Language.ofPath? p
  | .diffFiles old _ _ => Language.ofPath? old

/-- The parser of a language, if one can be made. -/
def made? (w : Workshop) (settings : Settings) (schemaFiles : List (String × Path)) (id : String) :
    Option LanguageParser :=
  (LanguageParser.create w settings id (schemaFiles.lookup id)).outcome.toOption.map Prod.fst

/-- The parser that is made of a language if a turn asks for it. -/
def Turn.made? (settings : Settings) (schemaFiles : List (String × Path)) (id : String)
    (turn : Turn) : Option LanguageParser :=
  if turn.call.language?.map Language.name = some id then
    ParserPool.made? turn.workshop settings schemaFiles id
  else none

/-! ## What a call does to the pool -/

variable {pool : ParserPool} {w : Workshop} {call : Call} {l : Language} {name id : String}
  {parser : LanguageParser} {turns : List Turn}

/-- Keep the parser of a language, unless there is one already or none can be made. -/
def enroll (pool : ParserPool) (w : Workshop) (id : String) : ParserPool :=
  match pool.parsers.lookup id with
  | some _ => pool
  | none =>
    { pool with
      parsers := pool.parsers ++
        ((made? w pool.settings pool.schemaFiles id).map (Prod.mk id)).toList }

lemma keyOf_of_find? (h : Language.find? name = some l) : keyOf name = l.name := by
  rw [keyOf, h]

lemma keyOf_name (hl : l ∈ Language.all) : keyOf l.name = l.name :=
  keyOf_of_find? (Language.find?_name hl)

lemma made?_of_unknown {settings : Settings} {schemaFiles : List (String × Path)}
    (h : Language.find? id = none) : made? w settings schemaFiles id = none := by
  simp only [made?, LanguageParser.create, h]
  rfl

/-- A parser that is there is given out, and nothing else happens. -/
lemma get_of_lookup (hparser : pool.parsers.lookup (keyOf name) = some parser) :
    pool.get w name = .result ⟨parser, pool, w⟩ := by
  simp only [get, hparser]

/-- What an operation gives that goes on after another one. -/
lemma outcome_bind {α β : Type} (first : Logged α) (next : α → Logged β) :
    (first >>= next).outcome = first.outcome >>= fun a => (next a).outcome := by
  change (first.andThen next).outcome = _
  rw [Logged.andThen]
  cases first.outcome <;> rfl

/-- A parser that is not there is made. -/
lemma outcome_get_of_lookup_eq_none (hnone : pool.parsers.lookup (keyOf name) = none) :
    (pool.get w name).outcome = (LanguageParser.create w pool.settings (keyOf name)
      (pool.schemaFiles.lookup (keyOf name))).outcome.map fun made =>
        ⟨made.1, { pool with parsers := pool.parsers ++ [(keyOf name, made.1)] }, made.2⟩ := by
  simp only [get, hnone, outcome_bind]
  cases (LanguageParser.create w pool.settings (keyOf name)
    (pool.schemaFiles.lookup (keyOf name))).outcome <;> rfl

lemma kept_get (pool : ParserPool) (w : Workshop) (name : String) :
    pool.kept (pool.get w name) = pool.enroll w (keyOf name) := by
  cases hparser : pool.parsers.lookup (keyOf name) with
  | some parser =>
    rw [get_of_lookup hparser, enroll, hparser]
    rfl
  | none =>
    rw [kept, outcome_get_of_lookup_eq_none hparser, enroll, hparser, made?]
    cases (LanguageParser.create w pool.settings (keyOf name)
      (pool.schemaFiles.lookup (keyOf name))).outcome with
    | error failure => simp [Except.map, Except.toOption]
    | ok made => simp [Except.map, Except.toOption]

/-- A call that fails has no parser to give and can make none. -/
lemma made?_eq_none_of_error {failure : Failure} (h : (pool.get w name).outcome = .error failure) :
    made? w pool.settings pool.schemaFiles (keyOf name) = none := by
  cases hparser : pool.parsers.lookup (keyOf name) with
  | some parser =>
    rw [get_of_lookup hparser] at h
    cases h
  | none =>
    rw [outcome_get_of_lookup_eq_none hparser] at h
    rw [made?]
    cases hcreate : (LanguageParser.create w pool.settings (keyOf name)
      (pool.schemaFiles.lookup (keyOf name))).outcome with
    | error failure => rfl
    | ok made =>
      rw [hcreate] at h
      cases h

lemma forFile_of_ofPath? {p : Path} (h : Language.ofPath? p = some l) :
    pool.forFile w p = pool.get w l.name := by
  simp only [forFile, h]

lemma kept_forFile (p : Path) : pool.kept (pool.forFile w p) =
    match Language.ofPath? p with
    | some l => pool.enroll w l.name
    | none => pool := by
  cases h : Language.ofPath? p with
  | some l => rw [forFile_of_ofPath? h, kept_get, keyOf_name (Language.mem_of_ofPath? h)]
  | none =>
    simp only [forFile, h]
    rfl

lemma withFile_fst {α : Type} (p : Path) (work : LanguageParser → Logged α) :
    (pool.withFile w p work).1 = pool.kept (pool.forFile w p) := by
  rw [withFile, kept]
  cases (pool.forFile w p).outcome <;> rfl

/-- **What a call does to the pool:** the language that it asks for is enrolled. -/
theorem after_eq (pool : ParserPool) (w : Workshop) (call : Call) : pool.after w call =
    match call.language? with
    | some l => pool.enroll w l.name
    | none => pool := by
  cases call with
  | get name =>
    rw [after, kept_get, Call.language?]
    cases h : Language.find? name with
    | some l => rw [keyOf_of_find? h]
    | none =>
      -- no parser can be made for a text that spells no language
      have hkey : keyOf name = name := by rw [keyOf, h]
      rw [hkey, enroll, made?_of_unknown h]
      cases pool.parsers.lookup name <;> simp
  | forFile p => exact kept_forFile p
  | extractFile p recurse =>
    cases recurse with
    | false => exact (withFile_fst p _).trans (kept_forFile p)
    | true => exact (withFile_fst p _).trans (kept_forFile p)
  | diffFiles old new fullText => exact (withFile_fst old _).trans (kept_forFile old)

/-! ## What a run leaves in the pool -/

/-- A pool whose parsers are kept under different ids, each under the id of its language. -/
structure WellKept (pool : ParserPool) : Prop where
  distinct : (pool.parsers.map Prod.fst).Nodup
  canonical : ∀ id parser, (id, parser) ∈ pool.parsers →
    parser.language = id ∧ ∃ l ∈ Language.all, l.name = id

lemma language_of_made? {settings : Settings} {schemaFiles : List (String × Path)}
    (hl : l ∈ Language.all) (h : made? w settings schemaFiles l.name = some parser) :
    parser.language = l.name := by
  simp only [made?, LanguageParser.create, Language.find?_name hl, outcome_bind] at h
  cases hschema : (Schema.load w.files w.homes settings.schemas l.name
    (schemaFiles.lookup l.name)).outcome with
  | error failure => simp [hschema, Except.toOption, bind, Except.bind] at h
  | ok schema =>
    cases hgrammar : (w.grammars.load w.loaded l.name).outcome with
    | error failure => simp [hschema, hgrammar, Except.toOption, bind, Except.bind] at h
    | ok loaded =>
      simp [hschema, hgrammar, Except.toOption, bind, Except.bind, Logged.say, pure,
        Logged.result] at h
      rw [← h]

lemma lookup_enroll (pool : ParserPool) (w : Workshop) (id other : String) :
    (pool.enroll w other).parsers.lookup id = (pool.parsers.lookup id).or
      (if other = id then made? w pool.settings pool.schemaFiles id else none) := by
  rw [enroll]
  cases hother : pool.parsers.lookup other with
  | some parser =>
    by_cases hid : other = id
    · rw [← hid, hother]
      rfl
    · rw [if_neg hid, Option.or_none]
  | none =>
    rw [List.lookup_append]
    congr 1
    by_cases hid : other = id
    · rw [hid, if_pos rfl]
      cases made? w pool.settings pool.schemaFiles id <;> simp
    · rw [if_neg hid]
      cases made? w pool.settings pool.schemaFiles other with
      | none => rfl
      | some parser => simp [List.lookup_cons, beq_eq_false_iff_ne.2 (Ne.symm hid)]

/-- A call does not change by what parsers are made. -/
lemma settings_after (pool : ParserPool) (w : Workshop) (call : Call) :
    (pool.after w call).settings = pool.settings ∧
      (pool.after w call).schemaFiles = pool.schemaFiles := by
  rw [after_eq]
  cases call.language? with
  | none => exact ⟨rfl, rfl⟩
  | some l =>
    simp only [enroll]
    cases pool.parsers.lookup l.name <;> exact ⟨rfl, rfl⟩

/-- What a call adds to what the pool gives for a language. -/
lemma lookup_after (pool : ParserPool) (turn : Turn) (id : String) :
    (pool.after turn.workshop turn.call).parsers.lookup id =
      (pool.parsers.lookup id).or (turn.made? pool.settings pool.schemaFiles id) := by
  rw [after_eq, Turn.made?]
  cases turn.call.language? with
  | none => simp
  | some l =>
    simp only [lookup_enroll, Option.map_some, Option.some.injEq]

/-- **What a run adds:** for a language without a parser, the first one that could be made. -/
theorem lookup_afterAll (pool : ParserPool) (turns : List Turn) (id : String) :
    (pool.afterAll turns).parsers.lookup id = (pool.parsers.lookup id).or
      (turns.findSome? (Turn.made? pool.settings pool.schemaFiles id)) := by
  induction turns generalizing pool with
  | nil => simp [afterAll]
  | cons turn rest ih =>
    obtain ⟨hsettings, hschemas⟩ := settings_after pool turn.workshop turn.call
    rw [afterAll, List.foldl_cons, ← afterAll, ih, lookup_after, hsettings, hschemas,
      Option.or_assoc, List.findSome?_cons]
    cases turn.made? pool.settings pool.schemaFiles id <;> rfl

lemma settings_afterAll (pool : ParserPool) (turns : List Turn) :
    (pool.afterAll turns).settings = pool.settings ∧
      (pool.afterAll turns).schemaFiles = pool.schemaFiles := by
  induction turns generalizing pool with
  | nil => exact ⟨rfl, rfl⟩
  | cons turn rest ih =>
    obtain ⟨hsettings, hschemas⟩ := settings_after pool turn.workshop turn.call
    exact ⟨(ih _).1.trans hsettings, (ih _).2.trans hschemas⟩

lemma Call.mem_all_of_language? (h : call.language? = some l) : l ∈ Language.all := by
  cases call with
  | get name => exact (Language.find?_eq_some_iff.1 h).1
  | forFile p => exact Language.mem_of_ofPath? h
  | extractFile p recurse => exact Language.mem_of_ofPath? h
  | diffFiles old new fullText => exact Language.mem_of_ofPath? h

/-- Enrolling a language leaves a pool well kept. -/
lemma WellKept.enroll (h : pool.WellKept) (w : Workshop) (hl : l ∈ Language.all) :
    (pool.enroll w l.name).WellKept := by
  rw [ParserPool.enroll]
  cases hparser : pool.parsers.lookup l.name with
  | some parser => exact h
  | none =>
    cases hmade : made? w pool.settings pool.schemaFiles l.name with
    | none => simpa using h
    | some parser =>
      rw [List.lookup_eq_none_iff] at hparser
      constructor
      · simp only [Option.map_some, Option.toList_some, List.map_append, List.map_cons,
          List.map_nil]
        refine List.nodup_append.2 ⟨h.distinct, List.nodup_singleton _, ?_⟩
        intro a ha b hb
        obtain ⟨e, he, rfl⟩ := List.mem_map.1 ha
        rw [List.mem_singleton.1 hb]
        exact (bne_iff_ne.1 (hparser e he)).symm
      · intro id other hmem
        rcases List.mem_append.1 hmem with hmem | hmem
        · exact h.canonical id other hmem
        · obtain ⟨rfl, rfl⟩ := Prod.mk.inj (List.mem_singleton.1 hmem)
          exact ⟨language_of_made? hl hmade, l, hl, rfl⟩

lemma WellKept.after (h : pool.WellKept) (w : Workshop) (call : Call) :
    (pool.after w call).WellKept := by
  rw [after_eq]
  cases hcall : call.language? with
  | none => exact h
  | some l => exact h.enroll w (call.mem_all_of_language? hcall)

lemma WellKept.afterAll (h : pool.WellKept) (turns : List Turn) :
    (pool.afterAll turns).WellKept := by
  induction turns generalizing pool with
  | nil => exact h
  | cons turn rest ih => exact ih (h.after turn.workshop turn.call)

lemma wellKept_empty (settings : Settings) (schemaFiles : List (String × Path)) :
    (empty settings schemaFiles).WellKept := by
  constructor
  · exact List.nodup_nil
  · intro id parser hmem
    exact absurd hmem List.not_mem_nil

/-- A parser that is there stays there. -/
lemma lookup_afterAll_of_lookup (h : pool.parsers.lookup id = some parser) (turns : List Turn) :
    (pool.afterAll turns).parsers.lookup id = some parser := by
  rw [lookup_afterAll, h]
  rfl

/-- What a pool has become of after a run. -/
structure Remembers (settings : Settings) (schemaFiles : List (String × Path)) (turns : List Turn)
    (pool : ParserPool) : Prop where
  /-- For each language, the first parser that could be made when the language was asked for. -/
  holds : ∀ id, pool.parsers.lookup id =
    turns.findSome? (Turn.made? settings schemaFiles id)
  /-- The parsers are kept under different ids, each under that of its language. -/
  wellKept : pool.WellKept
  /-- Once there is a parser, it is given out for every spelling of its language and every file, and
  nothing else happens, whatever comes in between and whatever has become of the files. -/
  gives : ∀ l ∈ Language.all, ∀ parser, pool.parsers.lookup l.name = some parser →
    ∀ later w,
      (∀ name, Language.Spells name l →
        (pool.afterAll later).get w name = .result ⟨parser, pool.afterAll later, w⟩) ∧
      ∀ p, Language.ofPath? p = some l →
        (pool.afterAll later).forFile w p = .result ⟨parser, pool.afterAll later, w⟩
  /-- A call for a parser fails only if none can be made, and then it changes nothing. -/
  unchanged : ∀ w failure,
    (∀ name, (pool.get w name).outcome = .error failure →
      pool.after w (.get name) = pool ∧ made? w settings schemaFiles (keyOf name) = none) ∧
    ∀ p, (pool.forFile w p).outcome = .error failure →
      pool.after w (.forFile p) = pool ∧
        ∀ l, Language.ofPath? p = some l → made? w settings schemaFiles l.name = none
  /-- The languages are the ids of the parsers, sorted. -/
  languages : pool.languages.Perm (pool.parsers.map Prod.fst) ∧ pool.languages.Pairwise (· < ·)

/-- **A pool remembers the first parser of each language,** over every sequence of calls. -/
theorem remembers_afterAll (settings : Settings) (schemaFiles : List (String × Path))
    (turns : List Turn) :
    Remembers settings schemaFiles turns ((empty settings schemaFiles).afterAll turns) := by
  have hkept := (wellKept_empty settings schemaFiles).afterAll turns
  refine ⟨fun id => ?_, hkept, ?_, ?_, Text.perm_sorted _, Text.pairwise_sorted hkept.distinct⟩
  · rw [lookup_afterAll]
    rfl
  · intro l hl parser hparser later w
    have hstays := lookup_afterAll_of_lookup hparser later
    refine ⟨fun name hname => get_of_lookup ?_, fun p hp => ?_⟩
    · rwa [keyOf_of_find? (Language.find?_eq_some_iff.2 ⟨hl, hname⟩)]
    · rw [forFile_of_ofPath? hp]
      exact get_of_lookup (by rwa [keyOf_name hl])
  · intro w failure
    obtain ⟨hsettings, hschemas⟩ := settings_afterAll (empty settings schemaFiles) turns
    have hget : ∀ name, (((empty settings schemaFiles).afterAll turns).get w name).outcome =
        .error failure → made? w settings schemaFiles (keyOf name) = none := by
      intro name hfails
      have hnone := made?_eq_none_of_error hfails
      rwa [hsettings, hschemas] at hnone
    refine ⟨fun name hfails => ⟨?_, hget name hfails⟩, fun p hfails => ⟨?_, fun l hl => ?_⟩⟩
    · simp only [after, kept, hfails]
    · simp only [after, kept, hfails]
    · rw [forFile_of_ofPath? hl] at hfails
      have hnone := hget l.name hfails
      rwa [keyOf_name (Language.mem_of_ofPath? hl)] at hnone

/-! ## A language that is asked for before its schema is there -/

/-- The file that is given as the schema of a language. -/
def schemaOfCsharp : List (String × Path) := [("csharp", .ofText "schema.json")]

/-- A workshop with a grammar for the language and an empty schema in the file. -/
def stocked : Workshop :=
  ⟨⟨[], [(["schema.json"], .file [0x5b, 0x5d])]⟩, ⟨"", []⟩,
    ⟨[("tree_sitter_c_sharp", ["language"])], fun _ _ => none⟩, []⟩

/-- The same workshop without the file. -/
def bare : Workshop := { stocked with files := ⟨[], []⟩ }

/-- An alias that is asked for too early, and a file that cannot be read. -/
def earlyTurns : List Turn :=
  [⟨bare, .get "C-Sharp"⟩, ⟨stocked, .extractFile (.ofText "a.cs") false⟩]

/-- The first call fails, and so does the second one, but it leaves a parser, which is given out for
the other alias when the file is gone again. -/
theorem remembers_earlyTurns :
    ∃ pool parser, Remembers .usual schemaOfCsharp earlyTurns pool ∧
      ((empty .usual schemaOfCsharp).get bare "C-Sharp").outcome.isOk = false ∧
      ((empty .usual schemaOfCsharp).extractFile stocked (.ofText "a.cs")).2.2.outcome.isOk =
        false ∧
      pool.languages = ["csharp"] ∧
      pool.get bare "c_SHARP" = .result ⟨parser, pool, bare⟩ := by
  have h := remembers_afterAll .usual schemaOfCsharp earlyTurns
  have hmade :
      (earlyTurns.findSome? (Turn.made? .usual schemaOfCsharp "csharp")).isSome = true := by
    decide +kernel
  obtain ⟨parser, hparser⟩ := Option.isSome_iff_exists.1 hmade
  have hcsharp : ∃ l ∈ Language.all, l.name = "csharp" ∧ Language.lower "c_SHARP" ∈ l.aliases := by
    decide +kernel
  obtain ⟨l, hl, hname, halias⟩ := hcsharp
  rw [← h.holds, ← hname] at hparser
  refine ⟨_, parser, h, ?_, ?_, ?_, (h.gives l hl parser hparser [] bare).1 _ (Or.inr halias)⟩ <;>
    decide +kernel

end ParserPool

end TreeDiff
