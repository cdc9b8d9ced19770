/-
# Rejections

Values are rejected for two kinds of reasons: they do not fit, and then it is said where, or a path
leads into an unknown home.  Only destinations of log outputs are looked at for homes, so all other
checks reject with violations, and with at least one.
-/
import TreeDiff.Proofs.SingleSettings

namespace TreeDiff

/-- What a check has found: nothing, at least one violation, or the unknown home into which a path
leads. -/
inductive Checked.Tells {α : Type} : Checked α → Option UnknownHome → Prop where
  | ok (a : α) : Tells (.ok a) none
  | violations {all : List Violation} (h : all ≠ []) : Tells (.error (.violations all)) none
  | unknownHome (home : UnknownHome) : Tells (.error (.unknownHome home)) (some home)

namespace Checked.Tells

variable {α β : Type} {a : Checked α} {b : Checked β} {home home' : Option UnknownHome}

lemma broken {rule message : String} {input : Value} :
    Tells (Checked.broken rule message input : Checked α) none :=
  violations (List.cons_ne_nil _ _)

lemma ite {c : Prop} [Decidable c] {a b : Checked α} (h : a.Tells home) (h' : b.Tells home) :
    Tells (if c then a else b) home := by
  split
  · exact h
  · exact h'

lemma bind {next : α → Checked β} (h : a.Tells none) (h' : ∀ x, (next x).Tells none) :
    Tells (a >>= next) none := by
  cases h with
  | ok x => exact h' x
  | violations hall => exact violations hall

lemma bind_pure {f : α → β} (h : a.Tells home) : Tells (a >>= fun x => pure (f x)) home := by
  cases h with
  | ok x => exact ok (f x)
  | violations hall => exact violations hall
  | unknownHome unknown => exact unknownHome unknown

lemma map {f : α → β} (h : a.Tells home) : Tells (a.map f) home := by
  cases h with
  | ok x => exact ok (f x)
  | violations hall => exact violations hall
  | unknownHome unknown => exact unknownHome unknown

lemma within {name : String} (h : a.Tells home) : Tells (a.within name) home := by
  cases h with
  | ok x => exact ok x
  | violations hall => exact violations (by simpa using hall)
  | unknownHome unknown => exact unknownHome unknown

/-- The home of the first check counts, then that of the second one. -/
lemma both (h : a.Tells home) (h' : b.Tells home') : Tells (a.both b) (home.or home') := by
  cases h with
  | ok x =>
    cases h' with
    | ok y => exact ok (x, y)
    | violations hall => exact violations hall
    | unknownHome unknown => exact unknownHome unknown
  | violations hall =>
    cases h' with
    | ok y => exact violations hall
    | violations _ => exact violations (List.append_ne_nil_of_left_ne_nil hall _)
    | unknownHome unknown => exact unknownHome unknown
  | unknownHome unknown => cases h' <;> exact unknownHome unknown

/-- All checks of a list are made, and the first home counts. -/
lemma all {checks : List (Checked α)} {homes : List (Option UnknownHome)}
    (h : List.Forall₂ Tells checks homes) : Tells (Checked.all checks) (homes.findSome? id) := by
  induction h with
  | nil => exact ok []
  | @cons check home rest homes hcheck _ ih =>
    have hboth := (hcheck.both ih).map (f := fun p : α × List α => p.1 :: p.2)
    rw [List.findSome?_cons]
    cases home <;> exact hboth

end Checked.Tells

/-! ## Checks that do not look at homes -/

namespace Check

open Checked

variable {α : Type} {v : Value} {check : Value → Checked α}

/-- A coercion finds at most one violation. -/
lemma tells_coerced {coercion : Value → Except Complaint α} : (coerced coercion v).Tells none := by
  rw [coerced]
  cases coercion v with
  | ok a => exact .ok a
  | error complaint => exact .broken

lemma tells_optional (h : ∀ v, (check v).Tells none) : (optional check v).Tells none := by
  cases v with
  | null => exact .ok _
  | _ => exact (h _).map

lemma tells_satisfying {rule : α → Bool} {reason : α → String} (h : ∀ v, (check v).Tells none) :
    (satisfying rule reason check v).Tells none := by
  refine (h v).bind fun a => ?_
  split
  · exact .ok _
  · exact .broken

variable [Coercions]

lemma tells_oneOf {name : α → String} {choices : List α} : (oneOf name choices v).Tells none :=
  tells_coerced.map

lemma tells_level : (level v).Tells none := tells_oneOf

lemma tells_path : (path v).Tells none := tells_coerced.map

/-- The items of a value that is accepted as a list. -/
def items (v : Value) : List Value := (Coercions.items v).toOption.getD []

/-- A list tells of the first home that one of its items tells of. -/
lemma tells_list {home : Value → Option UnknownHome} (h : ∀ v, (check v).Tells (home v)) :
    (list check v).Tells ((items v).findSome? home) := by
  rw [list, coerced, items]
  cases Coercions.items v with
  | error complaint => exact .broken
  | ok all =>
    show Tells (Checked.all (all.zipIdx.map fun p => (check p.1).within (toString p.2)))
      (all.findSome? home)
    have hmap : (all.map home).findSome? id = all.findSome? home := by
      rw [List.findSome?_map]
      rfl
    rw [← hmap]
    refine Tells.all (List.forall₂_iff_get.2 ⟨by simp, fun i hi hi' => ?_⟩)
    simp only [List.get_eq_getElem, List.getElem_map, List.getElem_zipIdx]
    exact (h _).within

end Check

/-! ## Sections -/

section

open Checked

variable {α : Type} {homes : Homes} {v : Value} {entries : List (Value × Value)} {name : String}
  {usual : α} {check : Value → Checked α}

/-- A setting tells of the home that its value leads to. -/
lemma tells_setting {home : Value → Option UnknownHome} (h : ∀ v, (check v).Tells (home v)) :
    (setting entries name usual check).Tells ((Value.lookup name entries).bind home) := by
  rw [setting]
  cases Value.lookup name entries with
  | none => exact .ok _
  | some v => exact (h v).within

lemma tells_setting_none (h : ∀ v, (check v).Tells none) :
    (setting entries name usual check).Tells none := by
  have hsetting : (setting entries name usual check).Tells
      ((Value.lookup name entries).bind fun _ => none) := tells_setting h
  rwa [Option.bind_fun_none] at hsetting

variable [Coercions]

/-- The unknown home into which a destination leads. -/
def lostDestination? (homes : Homes) (v : Value) : Option UnknownHome :=
  match Check.text v with
  | .error _ => none
  | .ok s =>
    match (Path.ofText s).expandHome homes with
    | .error home => some home
    | .ok _ => none

/-- The unknown home into which an output leads. -/
def lostOutput? (homes : Homes) : Value → Option UnknownHome
  | .map entries => (Value.lookup "destination" entries).bind (lostDestination? homes)
  | _ => none

/-- The first unknown home into which the outputs of a log lead. -/
def lostHome? (homes : Homes) (entries : List (Value × Value)) : Option UnknownHome :=
  (Value.settingIn entries "logging" "outputs").bind fun outputs =>
    (Check.items outputs).findSome? (lostOutput? homes)

lemma tells_destination : (Check.destination homes v).Tells (lostDestination? homes v) := by
  rw [lostDestination?, Check.destination]
  cases htext : Check.text v with
  | error rejection =>
    -- a value that is no text is rejected before homes are looked at
    have htells : (Check.text v).Tells none := Check.tells_coerced
    rw [htext] at htells
    cases htells with
    | violations hall => exact .violations hall
  | ok s =>
    -- the streams are names without a tilde, so that they lead into no home
    have hstream : ∀ stream ∈ ["stderr", "stdout"],
        ∃ p, (Path.ofText stream).expandHome homes = .ok p := by
      intro stream hstream
      simp only [List.mem_cons, List.not_mem_nil, or_false] at hstream
      rcases hstream with rfl | rfl <;> exact ⟨_, rfl⟩
    change Tells (if s = "stderr" then .ok .stderr
      else if s = "stdout" then .ok .stdout else Check.destinationFile homes s v) _
    by_cases hstderr : s = "stderr"
    · obtain ⟨p, hp⟩ := hstream s (by simp [hstderr])
      rw [if_pos hstderr]
      simp only [hp]
      exact .ok _
    · rw [if_neg hstderr]
      by_cases hstdout : s = "stdout"
      · obtain ⟨p, hp⟩ := hstream s (by simp [hstdout])
        rw [if_pos hstdout]
        simp only [hp]
        exact .ok _
      · rw [if_neg hstdout, Check.destinationFile]
        cases hexpand : (Path.ofText s).expandHome homes with
        | error home =>
          simp only [hexpand]
          exact .unknownHome home
        | ok p =>
          simp only [hexpand]
          exact .ite (.ok _) .broken

lemma tells_output : Tells (LogOutput.ofValue homes v) (lostOutput? homes v) := by
  cases v with
  | map entries =>
    have hformat : Tells (setting entries "format" LogOutput.usual.format
        (Check.oneOf LogFormat.name LogFormat.all)) none :=
      tells_setting_none fun _ => Check.tells_oneOf
    have hdestination : Tells (setting entries "destination" LogOutput.usual.destination
        (Check.destination homes))
        ((Value.lookup "destination" entries).bind (lostDestination? homes)) :=
      tells_setting fun _ => tells_destination
    have hlevel : Tells (setting entries "level" LogOutput.usual.level
        (Check.optional Check.level)) none :=
      tells_setting_none fun _ => Check.tells_optional fun _ => Check.tells_level
    have hboth := hformat.both (hdestination.both hlevel)
    rw [Option.or_none, Option.none_or] at hboth
    exact hboth.bind_pure (f := fun p => LogOutput.mk p.1 p.2.1 p.2.2)
  | _ => exact .broken

/-- A section for log events tells of the home that its outputs lead to. -/
lemma tells_logging : Tells (LogSettings.ofValue homes v)
    ((Value.under "outputs" (some v)).bind fun outputs =>
      (Check.items outputs).findSome? (lostOutput? homes)) := by
  cases v with
  | map entries =>
    have hlevel : Tells (setting entries "level" LogSettings.usual.level Check.level) none :=
      tells_setting_none fun _ => Check.tells_level
    have houtputs : Tells (setting entries "outputs" LogSettings.usual.outputs
        (Check.list (LogOutput.ofValue homes)))
        ((Value.lookup "outputs" entries).bind fun outputs =>
          (Check.items outputs).findSome? (lostOutput? homes)) :=
      tells_setting fun _ => Check.tells_list fun _ => tells_output
    have hboth := hlevel.both houtputs
    rw [Option.none_or] at hboth
    exact hboth.bind_pure (f := fun p => LogSettings.mk p.1 p.2)
  | _ => exact .broken

lemma tells_diff : Tells (DiffSettings.ofValue v) none := by
  cases v with
  | map entries =>
    have hthreshold : Tells (setting entries "similarity_threshold" DiffSettings.usual.threshold
        Check.threshold) none :=
      tells_setting_none fun _ => Check.tells_satisfying fun _ => Check.tells_coerced
    have hlength : Tells (setting entries "truncate_length" DiffSettings.usual.truncateLength
        Check.positive) none :=
      tells_setting_none fun _ => Check.tells_satisfying fun _ => Check.tells_coerced
    have hfull : Tells (setting entries "include_full_text" DiffSettings.usual.fullText
        Check.truth) none :=
      tells_setting_none fun _ => Check.tells_coerced
    exact (hthreshold.both (hlength.both hfull)).bind_pure
      (f := fun p => DiffSettings.mk p.1 p.2.1 p.2.2)
  | _ => exact .broken

lemma tells_extraction : Tells (ExtractionSettings.ofValue v) none := by
  cases v with
  | map entries =>
    have hlength : Tells (setting entries "max_text_length"
        ExtractionSettings.usual.maxTextLength (Check.optional Check.integer)) none :=
      tells_setting_none fun _ => Check.tells_optional fun _ => Check.tells_coerced
    exact hlength.bind_pure (f := ExtractionSettings.mk)
  | _ => exact .broken

lemma tells_schemas : Tells (Schema.SearchPath.ofValue v) none := by
  cases v with
  | map entries =>
    have hpaths : ∀ v, Tells (Check.list Check.path v) none := by
      intro v
      have hlist : Tells (Check.list Check.path v) ((Check.items v).findSome? fun _ => none) :=
        Check.tells_list fun _ => Check.tells_path
      rwa [List.findSome?_eq_none_iff.2 fun _ _ => rfl] at hlist
    have hschemas : Tells (setting entries "schema_dirs" Schema.SearchPath.usual.schemas
        (Check.list Check.path)) none :=
      tells_setting_none hpaths
    have hgrammars : Tells (setting entries "grammar_dirs" Schema.SearchPath.usual.grammars
        (Check.list Check.path)) none :=
      tells_setting_none hpaths
    exact (hschemas.both hgrammars).bind_pure (f := fun p => Schema.SearchPath.mk p.1 p.2)
  | _ => exact .broken

/-- Settings that are read from entries tell of the home that the outputs of the log lead to. -/
lemma tells_ofEntries : Tells (Settings.ofEntries homes entries) (lostHome? homes entries) := by
  have hlogging : Tells (setting entries "logging" Settings.usual.logging
      (LogSettings.ofValue homes)) (lostHome? homes entries) := by
    rw [lostHome?, Value.settingIn]
    cases hlookup : Value.lookup "logging" entries with
    | none =>
      rw [setting, hlookup]
      exact .ok _
    | some v =>
      rw [setting, hlookup]
      exact tells_logging.within
  have hdiff : Tells (setting entries "diff" Settings.usual.diff DiffSettings.ofValue) none :=
    tells_setting_none fun _ => tells_diff
  have hextraction : Tells (setting entries "extraction" Settings.usual.extraction
      ExtractionSettings.ofValue) none :=
    tells_setting_none fun _ => tells_extraction
  have hschemas : Tells (setting entries "schemas" Settings.usual.schemas
      Schema.SearchPath.ofValue) none :=
    tells_setting_none fun _ => tells_schemas
  have hboth := hlogging.both (hdiff.both (hextraction.both hschemas))
  rw [Option.or_none, Option.or_none, Option.or_none] at hboth
  exact hboth.bind_pure (f := fun p => Settings.mk p.1 p.2.1 p.2.2.1 p.2.2.2)

end

end TreeDiff
