/-
# Single settings

The settings are a tree of two levels whose leaves are checked one for one.  Sections are read leaf
by leaf, and what a leaf accepts it accepts again once it has been written down, provided that the
values of each kind pass for themselves.  Settings that have been read are therefore not changed
when they are checked once more.
-/
import TreeDiff.Proofs.Merging
import TreeDiff.Proofs.PlainPaths
import TreeDiff.Proofs.Reading
import TreeDiff.Settings.Load

namespace TreeDiff

/-! ## Checks -/

namespace Checked

variable {α β : Type} {a : Checked α} {b : Checked β} {checks : List (Checked α)} {x : α}

lemma both_eq_ok {p : α × β} : both a b = .ok p ↔ a = .ok p.1 ∧ b = .ok p.2 := by
  obtain ⟨x, y⟩ := p
  cases a <;> cases b <;> simp [both]

lemma all_eq_ok {as : List α} : all checks = .ok as ↔ checks = as.map .ok := by
  induction checks generalizing as with
  | nil => cases as <;> simp [all]
  | cons check rest ih =>
    rw [all, map_eq_ok_iff]
    constructor
    · rintro ⟨⟨x, xs⟩, hboth, rfl⟩
      obtain ⟨hcheck, hrest⟩ := both_eq_ok.1 hboth
      rw [hcheck, ih.1 hrest, List.map_cons]
    · intro h
      cases as with
      | nil => cases h
      | cons x xs =>
        rw [List.map_cons, List.cons.injEq] at h
        exact ⟨(x, xs), both_eq_ok.2 ⟨h.1, ih.2 h.2⟩, rfl⟩

lemma within_eq_ok {name : String} : a.within name = .ok x ↔ a = .ok x := mapError_eq_ok_iff

end Checked

section

variable {α : Type} {entries : List (Value × Value)} {name : String} {usual a : α}
  {check : Value → Checked α} {v : Value}

/-- A setting is the usual one if nothing is said, or else what is said, checked. -/
lemma setting_eq_ok : setting entries name usual check = .ok a ↔
    match Value.lookup name entries with
    | none => a = usual
    | some v => check v = .ok a := by
  rw [setting]
  cases Value.lookup name entries with
  | none =>
    constructor
    · rintro h
      cases h
      rfl
    · rintro rfl
      rfl
  | some v => exact Checked.within_eq_ok

lemma sectionEntries_eq_ok {model : String} : sectionEntries model v = .ok entries ↔
    v = .map entries := by
  constructor
  · intro h
    cases v with
    | map inner =>
      cases h
      rfl
    | _ => cases h
  · rintro rfl
    rfl

lemma satisfying_eq_ok {rule : α → Bool} {reason : α → String} :
    Check.satisfying rule reason check v = .ok a ↔ check v = .ok a ∧ rule a = true := by
  rw [Check.satisfying]
  constructor
  · intro h
    obtain ⟨b, hb, h⟩ := exists_of_bind_eq_ok h
    split at h
    · next hrule =>
      cases h
      exact ⟨hb, hrule⟩
    · cases h
  · rintro ⟨hcheck, hrule⟩
    rw [hcheck]
    exact if_pos hrule

end

/-- A step that succeeds hands on what it has found. -/
lemma bind_of_eq_ok {ε α β : Type} {read : Except ε α} {next : α → Except ε β} {a : α}
    (h : read = .ok a) : read >>= next = next a := by
  rw [h]
  rfl

/-! ## Kinds -/

/-- Kinds whose own values pass for themselves, and for which no map passes. -/
class Coercions.Lawful [Coercions] : Prop where
  text (s : String) : Coercions.text (.text s) = .ok s
  integer (n : Int) : Coercions.integer (.int n) = .ok n
  number (x : Binary64) : Coercions.number (.float x) = .ok x
  truth (b : Bool) : Coercions.truth (.bool b) = .ok b
  path (s : String) : Coercions.path (.text s) = .ok s
  items (items : List Value) : Coercions.items (.list items) = .ok items
  choice {names : List String} (h : names.Nodup) (i : Fin names.length) :
    Coercions.choice names (.text (names.get i)) = .ok i
  integer_map (entries : List (Value × Value)) (n : Int) :
    Coercions.integer (.map entries) ≠ .ok n
  number_map (entries : List (Value × Value)) (x : Binary64) :
    Coercions.number (.map entries) ≠ .ok x
  truth_map (entries : List (Value × Value)) (b : Bool) : Coercions.truth (.map entries) ≠ .ok b
  items_map (entries : List (Value × Value)) (items : List Value) :
    Coercions.items (.map entries) ≠ .ok items
  choice_map (entries : List (Value × Value)) {names : List String} (i : Fin names.length) :
    Coercions.choice names (.map entries) ≠ .ok i

/-- The usual kinds are lawful. -/
instance Coercions.lawful_usual : Coercions.Lawful where
  text _ := rfl
  integer _ := rfl
  number _ := rfl
  truth _ := rfl
  path _ := rfl
  items _ := rfl
  choice {names} h i := by
    have hfound : names.finIdxOf? (names.get i) = some i := by
      rw [List.finIdxOf?_eq_some_iff]
      exact ⟨rfl, fun j hj heq => absurd (h.get_inj_iff.1 heq) (Fin.ne_of_lt hj)⟩
    show Coercions.usualChoice names (.text (names.get i)) = .ok i
    simp only [Coercions.usualChoice, hfound]
  integer_map _ _ := nofun
  number_map _ _ := nofun
  truth_map _ _ := nofun
  items_map _ _ := nofun
  choice_map _ _ _ := nofun

namespace Check

variable {α : Type} {coercion : Value → Except Complaint α} {check : Value → Checked α} {v : Value}
  {a : α} {entries : List (Value × Value)}

lemma coerced_eq_ok : coerced coercion v = .ok a ↔ coercion v = .ok a := by
  rw [coerced]
  cases coercion v with
  | ok b => simp
  | error complaint => exact iff_of_false nofun nofun

variable [Coercions]

/-- What a checked list holds has been checked. -/
lemma exists_of_mem_list {as : List α} (h : list check v = .ok as) (ha : a ∈ as) :
    ∃ item, check item = .ok a := by
  obtain ⟨items, -, h⟩ := exists_of_bind_eq_ok h
  have hmem : (.ok a : Checked α) ∈ as.map .ok := List.mem_map_of_mem ha
  rw [← Checked.all_eq_ok.1 h] at hmem
  obtain ⟨⟨item, i⟩, -, hitem⟩ := List.mem_map.1 hmem
  exact ⟨item, Checked.within_eq_ok.1 hitem⟩

variable [Coercions.Lawful]

/-- A list is accepted when every item is accepted as what it was written from. -/
lemma list_map {as : List α} {write : α → Value} (h : ∀ a ∈ as, check (write a) = .ok a) :
    list check (.list (as.map write)) = .ok as := by
  refine (bind_of_eq_ok (coerced_eq_ok.2 (Coercions.Lawful.items _))).trans ?_
  refine Checked.all_eq_ok.2 (List.ext_getElem (by simp) fun i hi hi' => ?_)
  have hi'' : i < as.length := by simpa using hi'
  simpa using Checked.within_eq_ok.2 (h as[i] (List.getElem_mem hi''))

lemma list_ne_ok_map {as : List α} : list check (.map entries) ≠ .ok as := by
  intro h
  obtain ⟨items, hitems, -⟩ := exists_of_bind_eq_ok h
  exact Coercions.Lawful.items_map entries items (coerced_eq_ok.1 hitems)

/-- A name stands for what has it. -/
lemma oneOf_name {name : α → String} {choices : List α} (hnodup : (choices.map name).Nodup)
    (ha : a ∈ choices) : oneOf name choices (.text (name a)) = .ok a := by
  obtain ⟨i, hi, rfl⟩ := List.getElem_of_mem ha
  have hlength : i < (choices.map name).length := by simpa using hi
  have hchoice := Coercions.Lawful.choice hnodup ⟨i, hlength⟩
  rw [List.get_eq_getElem, List.getElem_map] at hchoice
  rw [oneOf, coerced_eq_ok.2 hchoice]
  rfl

lemma oneOf_ne_ok_map {name : α → String} {choices : List α} :
    oneOf name choices (.map entries) ≠ .ok a := by
  intro h
  obtain ⟨i, hi, -⟩ := map_eq_ok_iff.1 h
  exact Coercions.Lawful.choice_map entries i (coerced_eq_ok.1 hi)

end Check

/-! ## Sections -/

section

variable [Coercions] {homes : Homes} {v : Value} {entries : List (Value × Value)}

lemma LogOutput.ofValue_eq_ok {o : LogOutput} : ofValue homes v = .ok o ↔
    ∃ entries, v = .map entries ∧
      setting entries "format" usual.format (Check.oneOf LogFormat.name LogFormat.all) =
        .ok o.format ∧
      setting entries "destination" usual.destination (Check.destination homes) =
        .ok o.destination ∧
      setting entries "level" usual.level (Check.optional Check.level) = .ok o.level := by
  constructor
  · intro h
    obtain ⟨entries, hentries, h⟩ := exists_of_bind_eq_ok h
    obtain ⟨⟨format, destination, level⟩, hboth, h⟩ := exists_of_bind_eq_ok h
    cases h
    obtain ⟨hformat, hrest⟩ := Checked.both_eq_ok.1 hboth
    exact ⟨entries, sectionEntries_eq_ok.1 hentries, hformat, Checked.both_eq_ok.1 hrest⟩
  · rintro ⟨entries, rfl, hformat, hrest⟩
    have hboth := Checked.both_eq_ok (p := (o.format, o.destination, o.level)).2
      ⟨hformat, Checked.both_eq_ok.2 hrest⟩
    exact (bind_of_eq_ok (sectionEntries_eq_ok.2 rfl)).trans (bind_of_eq_ok hboth)

lemma LogSettings.ofValue_eq_ok {s : LogSettings} : ofValue homes v = .ok s ↔
    ∃ entries, v = .map entries ∧
      setting entries "level" usual.level Check.level = .ok s.level ∧
      setting entries "outputs" usual.outputs (Check.list (LogOutput.ofValue homes)) =
        .ok s.outputs := by
  constructor
  · intro h
    obtain ⟨entries, hentries, h⟩ := exists_of_bind_eq_ok h
    obtain ⟨⟨level, outputs⟩, hboth, h⟩ := exists_of_bind_eq_ok h
    cases h
    exact ⟨entries, sectionEntries_eq_ok.1 hentries, Checked.both_eq_ok.1 hboth⟩
  · rintro ⟨entries, rfl, hboth⟩
    have hboth := Checked.both_eq_ok (p := (s.level, s.outputs)).2 hboth
    exact (bind_of_eq_ok (sectionEntries_eq_ok.2 rfl)).trans (bind_of_eq_ok hboth)

lemma DiffSettings.ofValue_eq_ok {s : DiffSettings} : ofValue v = .ok s ↔
    ∃ entries, v = .map entries ∧
      setting entries "similarity_threshold" usual.threshold Check.threshold = .ok s.threshold ∧
      setting entries "truncate_length" usual.truncateLength Check.positive =
        .ok s.truncateLength ∧
      setting entries "include_full_text" usual.fullText Check.truth = .ok s.fullText := by
  constructor
  · intro h
    obtain ⟨entries, hentries, h⟩ := exists_of_bind_eq_ok h
    obtain ⟨⟨threshold, truncateLength, fullText⟩, hboth, h⟩ := exists_of_bind_eq_ok h
    cases h
    obtain ⟨hthreshold, hrest⟩ := Checked.both_eq_ok.1 hboth
    exact ⟨entries, sectionEntries_eq_ok.1 hentries, hthreshold, Checked.both_eq_ok.1 hrest⟩
  · rintro ⟨entries, rfl, hthreshold, hrest⟩
    have hboth := Checked.both_eq_ok (p := (s.threshold, s.truncateLength, s.fullText)).2
      ⟨hthreshold, Checked.both_eq_ok.2 hrest⟩
    exact (bind_of_eq_ok (sectionEntries_eq_ok.2 rfl)).trans (bind_of_eq_ok hboth)

lemma ExtractionSettings.ofValue_eq_ok {s : ExtractionSettings} : ofValue v = .ok s ↔
    ∃ entries, v = .map entries ∧
      setting entries "max_text_length" usual.maxTextLength (Check.optional Check.integer) =
        .ok s.maxTextLength := by
  constructor
  · intro h
    obtain ⟨entries, hentries, h⟩ := exists_of_bind_eq_ok h
    obtain ⟨maxTextLength, hlength, h⟩ := exists_of_bind_eq_ok h
    cases h
    exact ⟨entries, sectionEntries_eq_ok.1 hentries, hlength⟩
  · rintro ⟨entries, rfl, hlength⟩
    exact (bind_of_eq_ok (sectionEntries_eq_ok.2 rfl)).trans (bind_of_eq_ok hlength)

lemma Schema.SearchPath.ofValue_eq_ok {s : Schema.SearchPath} : ofValue v = .ok s ↔
    ∃ entries, v = .map entries ∧
      setting entries "schema_dirs" usual.schemas (Check.list Check.path) = .ok s.schemas ∧
      setting entries "grammar_dirs" usual.grammars (Check.list Check.path) = .ok s.grammars := by
  constructor
  · intro h
    obtain ⟨entries, hentries, h⟩ := exists_of_bind_eq_ok h
    obtain ⟨⟨schemas, grammars⟩, hboth, h⟩ := exists_of_bind_eq_ok h
    cases h
    exact ⟨entries, sectionEntries_eq_ok.1 hentries, Checked.both_eq_ok.1 hboth⟩
  · rintro ⟨entries, rfl, hboth⟩
    have hboth := Checked.both_eq_ok (p := (s.schemas, s.grammars)).2 hboth
    exact (bind_of_eq_ok (sectionEntries_eq_ok.2 rfl)).trans (bind_of_eq_ok hboth)

lemma Settings.ofEntries_eq_ok {s : Settings} : ofEntries homes entries = .ok s ↔
    setting entries "logging" usual.logging (LogSettings.ofValue homes) = .ok s.logging ∧
    setting entries "diff" usual.diff DiffSettings.ofValue = .ok s.diff ∧
    setting entries "extraction" usual.extraction ExtractionSettings.ofValue =
      .ok s.extraction ∧
    setting entries "schemas" usual.schemas Schema.SearchPath.ofValue = .ok s.schemas := by
  constructor
  · intro h
    obtain ⟨⟨logging, diff, extraction, schemas⟩, hboth, h⟩ := exists_of_bind_eq_ok h
    cases h
    obtain ⟨hlogging, hrest⟩ := Checked.both_eq_ok.1 hboth
    obtain ⟨hdiff, hrest⟩ := Checked.both_eq_ok.1 hrest
    exact ⟨hlogging, hdiff, Checked.both_eq_ok.1 hrest⟩
  · rintro ⟨hlogging, hdiff, hrest⟩
    have hboth := Checked.both_eq_ok (p := (s.logging, s.diff, s.extraction, s.schemas)).2
      ⟨hlogging, Checked.both_eq_ok.2 ⟨hdiff, Checked.both_eq_ok.2 hrest⟩⟩
    exact bind_of_eq_ok hboth

end

/-! ## Leaves -/

/-- A single setting, with the kind of its values. -/
inductive Leaf : Type → Type where
  | level : Leaf Log.Level
  | outputs : Leaf (List LogOutput)
  | threshold : Leaf Binary64
  | truncateLength : Leaf Int
  | fullText : Leaf Bool
  | maxTextLength : Leaf (Option Int)
  | schemas : Leaf (List Path)
  | grammars : Leaf (List Path)

namespace Leaf

variable {α : Type}

/-- The section in which a setting stands. -/
def part : Leaf α → Section
  | level => .logging
  | outputs => .logging
  | threshold => .diff
  | truncateLength => .diff
  | fullText => .diff
  | maxTextLength => .extraction
  | schemas => .schemas
  | grammars => .schemas

/-- The name of a setting in its section. -/
def name : Leaf α → String
  | level => "level"
  | outputs => "outputs"
  | threshold => "similarity_threshold"
  | truncateLength => "truncate_length"
  | fullText => "include_full_text"
  | maxTextLength => "max_text_length"
  | schemas => "schema_dirs"
  | grammars => "grammar_dirs"

/-- The value of a setting. -/
def get : Leaf α → Settings → α
  | level, s => s.logging.level
  | outputs, s => s.logging.outputs
  | threshold, s => s.diff.threshold
  | truncateLength, s => s.diff.truncateLength
  | fullText, s => s.diff.fullText
  | maxTextLength, s => s.extraction.maxTextLength
  | schemas, s => s.schemas.schemas
  | grammars, s => s.schemas.grammars

/-- The value of a setting about which nothing is said. -/
def usual (leaf : Leaf α) : α := leaf.get .usual

/-- What a setting accepts. -/
def check [Coercions] (homes : Homes) : Leaf α → Value → Checked α
  | level => Check.level
  | outputs => Check.list (LogOutput.ofValue homes)
  | threshold => Check.threshold
  | truncateLength => Check.positive
  | fullText => Check.truth
  | maxTextLength => Check.optional Check.integer
  | schemas => Check.list Check.path
  | grammars => Check.list Check.path

/-- How the value of a setting is written down. -/
def write : Leaf α → α → Value
  | level => fun level => .text level.name
  | outputs => fun outputs => .list (outputs.map LogOutput.toValue)
  | threshold => Value.float
  | truncateLength => Value.int
  | fullText => Value.bool
  | maxTextLength => fun length => (length.map Value.int).getD .null
  | schemas => fun paths => .list (paths.map fun p => .text p.text)
  | grammars => fun paths => .list (paths.map fun p => .text p.text)

end Leaf

/-! ## Reading leaf by leaf -/

/-- A setting in a section is what is said of it there, or else what it is in the usual section. -/
lemma read_in_section {α β : Type} {entries : List (Value × Value)} {part name : String}
    {usual s : β} {read : Value → Checked β} {check : Value → Checked α} (get : β → α)
    (h : setting entries part usual read = .ok s)
    (hread : ∀ v s, read v = .ok s →
      ∃ inner, v = .map inner ∧ setting inner name (get usual) check = .ok (get s)) :
    match Value.settingIn entries part name with
    | none => get s = get usual
    | some v => check v = .ok (get s) := by
  rw [setting_eq_ok] at h
  rw [Value.settingIn]
  cases hpart : Value.lookup part entries with
  | none =>
    rw [hpart] at h
    exact congrArg get h
  | some v =>
    rw [hpart] at h
    obtain ⟨inner, rfl, hsetting⟩ := hread v s h
    exact setting_eq_ok.1 hsetting

namespace Leaf

variable [Coercions] {α : Type} {homes : Homes} {leaf : Leaf α} {a : α} {v : Value}
  {entries : List (Value × Value)} {s : Settings} {said : Option Value}

/-- A leaf has the value that is said of it, checked, or else its usual one. -/
def Holds (homes : Homes) (leaf : Leaf α) (said : Option Value) (a : α) : Prop :=
  match said with
  | none => a = leaf.usual
  | some v => leaf.check homes v = .ok a

/-- Settings that are read hold at each leaf what the entries say of it. -/
lemma holds_of_ofEntries (h : Settings.ofEntries homes entries = .ok s) (leaf : Leaf α) :
    leaf.Holds homes (Value.settingIn entries leaf.part.name leaf.name) (leaf.get s) := by
  obtain ⟨hlogging, hdiff, hextraction, hschemas⟩ := Settings.ofEntries_eq_ok.1 h
  cases leaf with
  | level =>
    refine read_in_section LogSettings.level hlogging fun v s hv => ?_
    obtain ⟨inner, rfl, hlevel, -⟩ := LogSettings.ofValue_eq_ok.1 hv
    exact ⟨inner, rfl, hlevel⟩
  | outputs =>
    refine read_in_section LogSettings.outputs hlogging fun v s hv => ?_
    obtain ⟨inner, rfl, -, houtputs⟩ := LogSettings.ofValue_eq_ok.1 hv
    exact ⟨inner, rfl, houtputs⟩
  | threshold =>
    refine read_in_section DiffSettings.threshold hdiff fun v s hv => ?_
    obtain ⟨inner, rfl, hthreshold, -⟩ := DiffSettings.ofValue_eq_ok.1 hv
    exact ⟨inner, rfl, hthreshold⟩
  | truncateLength =>
    refine read_in_section DiffSettings.truncateLength hdiff fun v s hv => ?_
    obtain ⟨inner, rfl, -, hlength, -⟩ := DiffSettings.ofValue_eq_ok.1 hv
    exact ⟨inner, rfl, hlength⟩
  | fullText =>
    refine read_in_section DiffSettings.fullText hdiff fun v s hv => ?_
    obtain ⟨inner, rfl, -, -, hfull⟩ := DiffSettings.ofValue_eq_ok.1 hv
    exact ⟨inner, rfl, hfull⟩
  | maxTextLength =>
    refine read_in_section ExtractionSettings.maxTextLength hextraction fun v s hv => ?_
    exact ExtractionSettings.ofValue_eq_ok.1 hv
  | schemas =>
    refine read_in_section Schema.SearchPath.schemas hschemas fun v s hv => ?_
    obtain ⟨inner, rfl, hdirs, -⟩ := Schema.SearchPath.ofValue_eq_ok.1 hv
    exact ⟨inner, rfl, hdirs⟩
  | grammars =>
    refine read_in_section Schema.SearchPath.grammars hschemas fun v s hv => ?_
    obtain ⟨inner, rfl, -, hdirs⟩ := Schema.SearchPath.ofValue_eq_ok.1 hv
    exact ⟨inner, rfl, hdirs⟩

/-! ## Rules -/

lemma Holds.threshold_rule {x : Binary64} (h : Leaf.threshold.Holds homes said x) :
    (Binary64.zero.le x && x.le .one) = true := by
  cases said with
  | none =>
    rw [show x = DiffSettings.usual.threshold from h]
    decide +kernel
  | some v => exact (satisfying_eq_ok.1 h).2

lemma Holds.length_rule {n : Int} (h : Leaf.truncateLength.Holds homes said n) :
    decide (1 ≤ n) = true := by
  cases said with
  | none =>
    rw [show n = DiffSettings.usual.truncateLength from h]
    decide +kernel
  | some v => exact (satisfying_eq_ok.1 h).2

/-- A destination that has been accepted is a stream, or a file at a plain path from the root. -/
lemma file_of_destination {d : Destination} {path : Path}
    (h : Check.destination homes v = .ok d) (hd : d = .file path) :
    path.IsPlain ∧ path.isAbsolute = true := by
  subst hd
  obtain ⟨text, -, h⟩ := exists_of_bind_eq_ok h
  split at h
  · cases h
  · split at h
    · cases h
    · rw [Check.destinationFile] at h
      split at h
      · cases h
      · next p hp =>
        split at h
        · next habsolute =>
          cases h
          exact ⟨(Path.isPlain_ofText text).expandHome hp, habsolute⟩
        · cases h

/-- An output that has been accepted goes to a stream, or to a file at a plain path from the
root. -/
lemma file_of_output {o : LogOutput} {path : Path} (h : LogOutput.ofValue homes v = .ok o)
    (hpath : o.destination = .file path) : path.IsPlain ∧ path.isAbsolute = true := by
  obtain ⟨inner, -, -, hdestination, -⟩ := LogOutput.ofValue_eq_ok.1 h
  rw [setting_eq_ok] at hdestination
  split at hdestination
  · rw [hdestination] at hpath
    cases hpath
  · exact file_of_destination hdestination hpath

/-- So do all outputs of which something is said, and the usual ones. -/
lemma Holds.file_of_outputs {outputs : List LogOutput} (h : Leaf.outputs.Holds homes said outputs)
    {o : LogOutput} (ho : o ∈ outputs) {path : Path} (hpath : o.destination = .file path) :
    path.IsPlain ∧ path.isAbsolute = true := by
  cases said with
  | none =>
    rw [show outputs = [LogOutput.usual] from h, List.mem_singleton] at ho
    rw [ho] at hpath
    cases hpath
  | some v =>
    obtain ⟨item, hitem⟩ := Check.exists_of_mem_list h ho
    exact file_of_output hitem hpath

/-- Lists of paths are plain, and the usual ones are empty. -/
lemma isPlain_of_paths {paths : List Path} (h : match said with
    | none => paths = []
    | some v => Check.list Check.path v = .ok paths) : ∀ p ∈ paths, p.IsPlain := by
  intro p hp
  cases said with
  | none =>
    rw [show paths = [] from h] at hp
    cases hp
  | some v =>
    obtain ⟨item, hitem⟩ := Check.exists_of_mem_list h hp
    obtain ⟨text, -, rfl⟩ := map_eq_ok_iff.1 hitem
    exact Path.isPlain_ofText text

/-! ## Writing down -/

variable [Coercions.Lawful]

/-- No single setting is a map. -/
lemma check_map (leaf : Leaf α) (inner : List (Value × Value)) :
    leaf.check homes (.map inner) ≠ .ok a := by
  intro h
  cases leaf with
  | level => exact Check.oneOf_ne_ok_map h
  | outputs => exact Check.list_ne_ok_map h
  | threshold =>
    exact Coercions.Lawful.number_map _ _ (Check.coerced_eq_ok.1 (satisfying_eq_ok.1 h).1)
  | truncateLength =>
    exact Coercions.Lawful.integer_map _ _ (Check.coerced_eq_ok.1 (satisfying_eq_ok.1 h).1)
  | fullText => exact Coercions.Lawful.truth_map _ _ (Check.coerced_eq_ok.1 h)
  | maxTextLength =>
    obtain ⟨n, hn, -⟩ := map_eq_ok_iff.1 h
    exact Coercions.Lawful.integer_map _ _ (Check.coerced_eq_ok.1 hn)
  | schemas => exact Check.list_ne_ok_map h
  | grammars => exact Check.list_ne_ok_map h

lemma check_level_name (level : Log.Level) : Check.level (.text level.name) = .ok level :=
  Check.oneOf_name (by decide) (by cases level <;> decide)

/-- What is accepted as a destination is accepted again by its name. -/
lemma check_destination_name {d : Destination} (h : ∀ path, d = .file path →
    path.IsPlain ∧ path.isAbsolute = true) : Check.destination homes (.text d.name) = .ok d := by
  have htext : Check.text (.text d.name) = .ok d.name :=
    Check.coerced_eq_ok.2 (Coercions.Lawful.text d.name)
  refine (bind_of_eq_ok htext).trans ?_
  cases d with
  | stderr => rfl
  | stdout => rfl
  | file path =>
    obtain ⟨hplain, habsolute⟩ := h path rfl
    -- a path from the root is no name of a stream, and no home is looked up for it
    have hstderr := Path.text_ne_of_isAbsolute "stderr" hplain habsolute rfl
    have hstdout := Path.text_ne_of_isAbsolute "stdout" hplain habsolute rfl
    have hfile : Check.destinationFile homes path.text (.text path.text) = .ok (.file path) := by
      rw [Check.destinationFile, Path.ofText_text hplain, Path.expandHome_of_isAbsolute habsolute]
      exact if_pos habsolute
    exact (if_neg hstderr).trans ((if_neg hstdout).trans hfile)

/-- An output is accepted again as it is written down. -/
lemma ofValue_toValue_output {o : LogOutput} (h : ∀ path, o.destination = .file path →
    path.IsPlain ∧ path.isAbsolute = true) : LogOutput.ofValue homes o.toValue = .ok o := by
  refine LogOutput.ofValue_eq_ok.2 ⟨_, rfl, setting_eq_ok.2 ?_, setting_eq_ok.2 ?_,
    setting_eq_ok.2 ?_⟩
  · exact Check.oneOf_name (by decide) (by cases o.format <;> decide)
  · exact check_destination_name h
  · show Check.optional Check.level ((o.level.map fun level => .text level.name).getD .null) =
      .ok o.level
    cases o.level with
    | none => rfl
    | some level => exact map_eq_ok_iff.2 ⟨level, check_level_name level, rfl⟩

/-- Paths are accepted again by their texts. -/
lemma check_paths {paths : List Path} (h : ∀ p ∈ paths, p.IsPlain) :
    Check.list Check.path (.list (paths.map fun p => .text p.text)) = .ok paths := by
  refine Check.list_map fun p hp => map_eq_ok_iff.2 ⟨p.text, ?_, Path.ofText_text (h p hp)⟩
  exact Check.coerced_eq_ok.2 (Coercions.Lawful.path p.text)

/-- An integer or null is accepted again. -/
lemma check_optional_integer (length : Option Int) :
    Check.optional Check.integer ((length.map Value.int).getD .null) = .ok length := by
  cases length with
  | none => rfl
  | some n => exact map_eq_ok_iff.2 ⟨n, Check.coerced_eq_ok.2 (Coercions.Lawful.integer n), rfl⟩

/-- What a leaf has it accepts as it is written down. -/
lemma Holds.check_write (h : leaf.Holds homes said a) :
    leaf.check homes (leaf.write a) = .ok a := by
  have hnumber (x : Binary64) := Check.coerced_eq_ok.2 (Coercions.Lawful.number x)
  have hinteger (n : Int) := Check.coerced_eq_ok.2 (Coercions.Lawful.integer n)
  cases leaf with
  | level => exact check_level_name a
  | outputs =>
    exact Check.list_map fun o ho => ofValue_toValue_output fun path hpath =>
      h.file_of_outputs ho hpath
  | threshold => exact satisfying_eq_ok.2 ⟨hnumber a, h.threshold_rule⟩
  | truncateLength => exact satisfying_eq_ok.2 ⟨hinteger a, h.length_rule⟩
  | fullText => exact Check.coerced_eq_ok.2 (Coercions.Lawful.truth a)
  | maxTextLength => exact check_optional_integer a
  | schemas => exact check_paths (isPlain_of_paths h)
  | grammars => exact check_paths (isPlain_of_paths h)

end Leaf

namespace Settings

variable [Coercions] {homes : Homes} {s t : Settings} {entries : List (Value × Value)} {v : Value}

/-- Settings whose numbers and destinations are within their ranges. -/
structure InRange (s : Settings) : Prop where
  threshold : Binary64.zero.le s.diff.threshold = true ∧ s.diff.threshold.le .one = true
  truncateLength : 1 ≤ s.diff.truncateLength
  destinations : ∀ o ∈ s.logging.outputs, ∀ path, o.destination = .file path →
    path.isAbsolute = true

lemma inRange_of_ofEntries (h : ofEntries homes entries = .ok s) : s.InRange where
  threshold := by
    have hrule := (Leaf.threshold.holds_of_ofEntries h).threshold_rule
    rwa [Bool.and_eq_true] at hrule
  truncateLength := of_decide_eq_true (Leaf.truncateLength.holds_of_ofEntries h).length_rule
  destinations o ho path hpath :=
    ((Leaf.outputs.holds_of_ofEntries h).file_of_outputs ho hpath).2

/-- Whatever passes the last check is within its ranges. -/
lemma inRange_of_recheck (h : recheck homes s = .ok t) : t.InRange := by
  obtain ⟨entries, -, hentries⟩ := exists_of_bind_eq_ok (mapError_eq_ok_iff.1 h)
  exact inRange_of_ofEntries hentries

/-- Settings that are accepted leaf by leaf are accepted as they are written down. -/
lemma ofValue_toValue (h : ∀ {α} (leaf : Leaf α),
    leaf.check homes (leaf.write (leaf.get s)) = .ok (leaf.get s)) :
    ofValue homes s.toValue = .ok s := by
  have hlogging : LogSettings.ofValue homes s.logging.toValue = .ok s.logging :=
    LogSettings.ofValue_eq_ok.2 ⟨_, rfl, setting_eq_ok.2 (h .level), setting_eq_ok.2 (h .outputs)⟩
  have hdiff : DiffSettings.ofValue s.diff.toValue = .ok s.diff :=
    DiffSettings.ofValue_eq_ok.2 ⟨_, rfl, setting_eq_ok.2 (h .threshold),
      setting_eq_ok.2 (h .truncateLength), setting_eq_ok.2 (h .fullText)⟩
  have hextraction : ExtractionSettings.ofValue s.extraction.toValue = .ok s.extraction :=
    ExtractionSettings.ofValue_eq_ok.2 ⟨_, rfl, setting_eq_ok.2 (h .maxTextLength)⟩
  have hschemas : Schema.SearchPath.ofValue s.schemas.toValue = .ok s.schemas :=
    Schema.SearchPath.ofValue_eq_ok.2 ⟨_, rfl, setting_eq_ok.2 (h .schemas),
      setting_eq_ok.2 (h .grammars)⟩
  refine (bind_of_eq_ok (sectionEntries_eq_ok.2 rfl)).trans (ofEntries_eq_ok.2
    ⟨setting_eq_ok.2 hlogging, setting_eq_ok.2 hdiff, setting_eq_ok.2 hextraction,
      setting_eq_ok.2 hschemas⟩)

/-- Settings that have been read pass when they are checked once more. -/
lemma recheck_of_ofEntries [Coercions.Lawful] (h : ofEntries homes entries = .ok s) :
    recheck homes s = .ok s := by
  have hvalue := ofValue_toValue fun leaf => (leaf.holds_of_ofEntries h).check_write
  rw [recheck, hvalue]
  rfl

end Settings

end TreeDiff
