/-
# Faults that escape

Loading the settings ends with settings or with a report about the configuration, which a command
shows as its message.  Five kinds of faults get past this: a document that is not refused but makes
its reader fail, variables that do so, entries whose names are no texts, destinations in unknown
homes, and values that do not fit and cannot be shown.  Everything else that can be wrong with the
files or the variables is reported.  By the usual reader, bytes that encode no text make it fail.
-/
import TreeDiff.Command.Run
import TreeDiff.Proofs.Precedence
import TreeDiff.Proofs.Rejections

namespace TreeDiff

/-- Whether a report is one about the configuration. -/
def Report.IsAboutSettings (report : Report) : Prop :=
  report.code = .configParseError ∨ report.code = .configInvalidValue

section

variable {α β : Type} {a : Except Failure α} {next : α → Except Failure β} {c c' : Prop}

/-- There is a result, or a report about the configuration. -/
def IsAnswered (outcome : Except Failure α) : Prop :=
  (∃ x, outcome = .ok x) ∨ ∃ report, outcome = .error (.reported report) ∧ report.IsAboutSettings

/-- How a step ends: if a condition holds then with a failure that is no report, and otherwise with
a result or with a report about the configuration. -/
inductive Ends : Except Failure α → Prop → Prop where
  | ok (x : α) {c : Prop} (h : ¬c) : Ends (.ok x) c
  | reported {report : Report} (hreport : report.IsAboutSettings) {c : Prop} (h : ¬c) :
      Ends (.error (.reported report)) c
  | escaped {failure : Failure} (hreport : failure.isReport = false) {c : Prop} (h : c) :
      Ends (.error failure) c

namespace Ends

lemma congr (h : Ends a c) (hc : c ↔ c') : Ends a c' := by
  rwa [← propext hc]

/-- A second step counts as far as the first one gets. -/
lemma bind {d : α → Prop} (h : Ends a c) (h' : ∀ x, a = .ok x → Ends (next x) (d x)) :
    Ends (a >>= next) (c ∨ ∃ x, a = .ok x ∧ d x) := by
  cases h with
  | ok x h =>
    refine (h' x rfl).congr ⟨fun hd => Or.inr ⟨x, rfl, hd⟩, ?_⟩
    rintro (hc | ⟨y, hy, hd⟩)
    · exact absurd hc h
    · cases hy
      exact hd
  | reported hreport h =>
    refine .reported hreport ?_
    rintro (hc | ⟨y, hy, -⟩)
    · exact h hc
    · cases hy
  | escaped hreport h => exact .escaped hreport (Or.inl h)

lemma bind_pure {f : α → β} (h : Ends a c) : Ends (a >>= fun x => pure (f x)) c := by
  cases h with
  | ok x h => exact .ok _ h
  | reported hreport h => exact .reported hreport h
  | escaped hreport h => exact .escaped hreport h

lemma isAnswered_iff (h : Ends a c) : IsAnswered a ↔ ¬c := by
  cases h with
  | ok x h => exact iff_of_true (Or.inl ⟨x, rfl⟩) h
  | reported hreport h => exact iff_of_true (Or.inr ⟨_, rfl, hreport⟩) h
  | escaped hreport h =>
    refine iff_of_false ?_ (not_not.2 h)
    rintro (⟨x, hx⟩ | ⟨report, hx, -⟩)
    · cases hx
    · cases hx
      cases hreport

end Ends

end

/-! ## Files and variables -/

/-- The reader fails at the document in a file. -/
def Files.HidesFault [Reader] (files : Files) (file : Path) : Prop :=
  ∃ bytes escape, files.read file = .ok bytes ∧
    Reader.document file.text bytes = .error (.failed escape)

namespace Settings

variable {files : Files} {file : Path}

lemma ends_fileEntries [Reader] (h : files.look file ≠ .ok .directory) :
    Ends (fileEntries files file) (files.HidesFault file) := by
  rw [fileEntries, Files.exists?, Files.HidesFault]
  cases hlook : files.look file with
  | error fault =>
    refine .ok _ ?_
    rintro ⟨bytes, -, hbytes, -⟩
    rw [Files.read, hlook] at hbytes
    cases hbytes
  | ok node =>
    cases node with
    | directory => exact absurd hlook h
    | file bytes =>
      have hread : files.read file = .ok bytes := by
        rw [Files.read, hlook]
        rfl
      have hhides : (∃ escape, Reader.document file.text bytes = .error (.failed escape)) ↔
          ∃ bytes' escape, files.read file = .ok bytes' ∧
            Reader.document file.text bytes' = .error (.failed escape) := by
        simp [hread]
      refine Ends.congr ?_ hhides
      rw [hread]
      simp only [Bool.not_true, Bool.false_eq_true, if_false]
      cases Reader.document file.text bytes with
      | error reason =>
        cases reason with
        | refused message => exact .reported (Or.inl rfl) (by simp)
        | failed escape => exact .escaped escape.isReport_eq ⟨escape, rfl⟩
      | ok v =>
        have hother : Ends (if v.isFalsy then .ok [] else .error (.reported
            (.unreadableSettings file.text "top-level value must be a mapping")) :
              Except Failure (List (Value × Value))) False := by
          split
          · exact .ok _ not_false
          · exact .reported (Or.inl rfl) not_false
        refine Ends.congr (c := False) ?_ (by simp)
        cases v with
        | map entries => exact .ok entries not_false
        | _ => exact hother

lemma ends_variableEntries [Reader] {environment : Variables} :
    Ends (variableEntries environment)
      (∃ escape, Reader.sections environment = .error escape) := by
  rw [variableEntries]
  cases Reader.sections environment with
  | ok said => exact .ok _ (by simp)
  | error escape => exact .escaped escape.isReport_eq ⟨escape, rfl⟩

/-! ## Names -/

variable {key value : Value} {entries lower upper : List (Value × Value)}

lemma isNamed_iff {e : Value × Value} : isNamed e = true ↔ ∃ name, e.1 = .text name := by
  obtain ⟨k, v⟩ := e
  cases k <;> simp [isNamed]

lemma isNamed_of_sameKey {k : Value} (v w : Value) (h : Value.sameKey k key = true) :
    isNamed (k, v) = isNamed (key, w) := by
  rw [Bool.eq_iff_iff, isNamed_iff, isNamed_iff]
  constructor
  · rintro ⟨name, rfl⟩
    exact ⟨name, Value.eq_text_of_sameKey h⟩
  · rintro ⟨name, rfl⟩
    exact ⟨name, Value.sameKey_text.1 h⟩

lemma all_isNamed_put : (Value.put key value entries).all isNamed =
    (isNamed (key, value) && entries.all isNamed) := by
  induction entries with
  | nil => rfl
  | cons e rest ih =>
    obtain ⟨k, v⟩ := e
    rw [Value.put]
    split
    · next hk =>
      rw [List.all_cons, List.all_cons, isNamed_of_sameKey value value hk,
        isNamed_of_sameKey v value hk, ← Bool.and_assoc, Bool.and_self]
    · rw [List.all_cons, List.all_cons, ih, Bool.and_left_comm]

lemma all_isNamed_mergeEntries : (Value.mergeEntries lower upper).all isNamed =
    (lower.all isNamed && upper.all isNamed) := by
  induction upper generalizing lower with
  | nil => rw [Value.mergeEntries, List.all_nil, Bool.and_true]
  | cons e rest ih =>
    obtain ⟨key, value⟩ := e
    rw [Value.mergeEntries, ih, all_isNamed_put, List.all_cons, Bool.and_assoc,
      Bool.and_left_comm]
    rfl

lemma all_isNamed_variableEntries [Reader] {environment : Variables}
    (h : variableEntries environment = .ok entries) : entries.all isNamed = true := by
  obtain ⟨said, -, h⟩ := exists_of_bind_eq_ok h
  cases h
  refine List.all_eq_true.2 fun e he => isNamed_iff.2 ?_
  obtain ⟨part, -, hpart⟩ := List.mem_filterMap.1 he
  obtain ⟨v, -, rfl⟩ := Option.map_eq_some_iff.1 hpart
  exact ⟨part.name, rfl⟩

/-! ## Loading -/

lemma tells_strays : (strays entries).Tells none := by
  simp only [strays]
  split
  · exact .ok _
  · next hall =>
    refine .violations fun hnil => hall ?_
    rw [List.map_eq_nil_iff] at hnil
    rw [hnil]
    rfl

variable {s : Sources}

/-- Whether the first value that does not fit holds an integer that is too long to be shown. -/
def Sources.HasUnshowable [Coercions] (s : Sources) (entries : List (Value × Value)) : Prop :=
  ∃ v rest, (ofEntries s.homes entries).both (strays entries) = .error (.violations (v :: rest)) ∧
    v.input.isShowable = false

/-- Checking merged entries is answered unless an output leads to an unknown home or a value that
does not fit cannot be shown. -/
lemma ends_check [Coercions] [Coercions.Lawful] (hcomplete : s.complete = []) :
    Ends (match (ofEntries s.homes entries).both (strays entries) with
      | .ok (settings, _) => recheck s.homes (s.complete.foldl SectionSettings.replaceIn settings)
      | .error rejection => throw (invalid rejection))
        ((∃ home, lostHome? s.homes entries = some home) ∨ s.HasUnshowable entries) := by
  have htells : ((ofEntries s.homes entries).both (strays entries)).Tells
      ((lostHome? s.homes entries).or none) := tells_ofEntries.both tells_strays
  rw [Option.or_none] at htells
  rw [Sources.HasUnshowable]
  generalize lostHome? s.homes entries = lost at htells
  cases hboth : (ofEntries s.homes entries).both (strays entries) with
  | ok p =>
    obtain ⟨settings, u⟩ := p
    have hread := (Checked.both_eq_ok.1 hboth).1
    rw [hboth] at htells
    cases htells with
    | ok _ =>
      change Ends (recheck s.homes (s.complete.foldl SectionSettings.replaceIn settings)) _
      rw [hcomplete, List.foldl_nil, recheck_of_ofEntries hread]
      exact .ok _ (by simp)
  | error rejection =>
    rw [hboth] at htells
    cases htells with
    | @violations all hall =>
      -- without any violation there would be nothing to report, but no check rejects like that
      cases all with
      | nil => exact absurd rfl hall
      | cons v rest =>
        change Ends (Except.error (if v.input.isShowable then _ else Failure.unshowable)) _
        by_cases hshow : v.input.isShowable = true
        · rw [if_pos hshow]
          exact .reported (Or.inr rfl) (by simp [hshow])
        · rw [if_neg hshow]
          exact .escaped rfl (Or.inr ⟨v, rest, rfl, Bool.eq_false_iff.2 hshow⟩)
    | unknownHome home => exact .escaped rfl (Or.inl ⟨home, rfl⟩)

section

variable [Reader]

/-- Whether a file names an entry by something else than a text. -/
def Sources.HasNameless (s : Sources) (file : Path) : Prop :=
  ∃ entries, fileEntries s.files file = .ok entries ∧ ∃ e ∈ entries, isNamed e = false

/-- The faults that are not reported, in the order in which they are come across.  The sources are
read one after the other, so a report about an earlier one comes first. -/
inductive Sources.Escapes [Coercions] (s : Sources) : Prop where
  | userFile (h : s.files.HidesFault s.userFile)
  | projectFile {user : List (Value × Value)} (huser : fileEntries s.files s.userFile = .ok user)
      (h : s.files.HidesFault s.projectFile)
  | environment {user project : List (Value × Value)}
      (huser : fileEntries s.files s.userFile = .ok user)
      (hproject : fileEntries s.files s.projectFile = .ok project) {escape : Escape}
      (h : Reader.sections s.environment = .error escape)
  | name {entries : List (Value × Value)} (hentries : s.entries = .ok entries)
      (h : s.HasNameless s.userFile ∨ s.HasNameless s.projectFile)
  | home {entries : List (Value × Value)} (hentries : s.entries = .ok entries)
      {home : UnknownHome} (h : lostHome? s.homes entries = some home)
  | unshowable {entries : List (Value × Value)} (hentries : s.entries = .ok entries)
      (h : s.HasUnshowable entries)

/-- Merged entries have a nameless one if one of the files has. -/
lemma Sources.all_isNamed_eq_false_iff (h : s.entries = .ok entries) (hgiven : s.given = [])
    (hcomplete : s.complete = []) : entries.all isNamed = false ↔
      s.HasNameless s.userFile ∨ s.HasNameless s.projectFile := by
  obtain ⟨user, project, held, huser, hproject, hheld, rfl⟩ := entries_eq_ok h hcomplete
  have hfile : ∀ {file : Path} {es : List (Value × Value)}, fileEntries s.files file = .ok es →
      (s.HasNameless file ↔ es.all isNamed = false) := by
    intro file es hes
    rw [HasNameless, hes, List.all_eq_false]
    simp
  -- variables give sections by their names, so a nameless entry stems from one of the files
  rw [hfile huser, hfile hproject, hgiven, all_isNamed_mergeEntries, all_isNamed_mergeEntries,
    all_isNamed_mergeEntries, all_isNamed_variableEntries hheld, List.all_nil, Bool.and_true,
    Bool.and_true, Bool.and_eq_false_iff]

lemma ends_entries
    (hfiles : ∀ file ∈ [s.userFile, s.projectFile], s.files.look file ≠ .ok .directory) :
    Ends s.entries (s.files.HidesFault s.userFile ∨
      ∃ user, fileEntries s.files s.userFile = .ok user ∧ (s.files.HidesFault s.projectFile ∨
        ∃ project, fileEntries s.files s.projectFile = .ok project ∧
          ∃ escape, Reader.sections s.environment = .error escape)) := by
  refine (ends_fileEntries (hfiles _ (by simp))).bind fun user _ => ?_
  refine (ends_fileEntries (hfiles _ (by simp))).bind fun project _ => ?_
  exact ends_variableEntries.bind_pure

/-- Loading from files and variables ends with an answer unless a fault escapes. -/
lemma ends_load [Coercions] [Coercions.Lawful] (hgiven : s.given = []) (hcomplete : s.complete = [])
    (hfiles : ∀ file ∈ [s.userFile, s.projectFile], s.files.look file ≠ .ok .directory) :
    Ends (load s) s.Escapes := by
  have hread : ∀ entries, s.entries = .ok entries → Ends (if entries.all isNamed then
      match (ofEntries s.homes entries).both (strays entries) with
      | .ok (settings, _) => recheck s.homes (s.complete.foldl SectionSettings.replaceIn settings)
      | .error rejection => throw (invalid rejection)
      else throw .namelessSetting)
        ((s.HasNameless s.userFile ∨ s.HasNameless s.projectFile) ∨
          (∃ home, lostHome? s.homes entries = some home) ∨ s.HasUnshowable entries) := by
    intro entries hentries
    have hnameless := Sources.all_isNamed_eq_false_iff hentries hgiven hcomplete
    -- the values are not looked at as long as there are names that are no texts
    split
    · next hall =>
      exact (ends_check hcomplete).congr (or_iff_right (by simp [← hnameless, hall])).symm
    · next hall => exact .escaped rfl (Or.inl (hnameless.1 (Bool.eq_false_iff.2 hall)))
  refine ((ends_entries hfiles).bind hread).congr ?_
  constructor
  · rintro ((h | ⟨user, huser, h | ⟨project, hproject, escape, h⟩⟩) |
      ⟨entries, hentries, h | ⟨home, h⟩ | h⟩)
    · exact .userFile h
    · exact .projectFile huser h
    · exact .environment huser hproject h
    · exact .name hentries h
    · exact .home hentries h
    · exact .unshowable hentries h
  · rintro (h | ⟨huser, h⟩ | ⟨huser, hproject, h⟩ | ⟨hentries, h⟩ | ⟨hentries, h⟩ | ⟨hentries, h⟩)
    · exact Or.inl (Or.inl h)
    · exact Or.inl (Or.inr ⟨_, huser, Or.inl h⟩)
    · exact Or.inl (Or.inr ⟨_, huser, Or.inr ⟨_, hproject, _, h⟩⟩)
    · exact Or.inr ⟨_, hentries, Or.inl h⟩
    · exact Or.inr ⟨_, hentries, Or.inr (Or.inl ⟨_, h⟩)⟩
    · exact Or.inr ⟨_, hentries, Or.inr (Or.inr h)⟩

end

/-- A project whose file of settings has the given content. -/
def projectWith (content : List UInt8) : Command.Surroundings where
  program := "lorax"
  files := ⟨["work"], [(["work"], .directory), (["work", ".loraxmod"], .directory),
    (["work", ".loraxmod", "config.yaml"], .file content)]⟩
  homes := ⟨"/home/user", []⟩
  userFile := userFile ⟨.root, ["home", "user"]⟩
  environment := []
  grammars := ⟨[], fun _ _ => none⟩

/-- A project in whose settings a bracket is not closed. -/
def unclosed : Command.Surroundings := projectWith (Text.Utf8.encode "diff: [\n")

/-- A project whose settings are a byte that is no UTF-8. -/
def strayByte : Command.Surroundings := projectWith [0xff]

/-- Whether loading ends with a report that a file cannot be read. -/
def isUnreadable : Except Failure Settings → Bool
  | .error (.reported report) => report.code = .configParseError
  | _ => false

end Settings

end TreeDiff
