/-
# Precedence of the sources

Settings come from a program, from variables and from two files.  Each single setting has the value
of the first source that says something about it, whatever the sources say about the others; and all
that comes out is within its range.  This is so for all kinds of values and all readers that are
lawful.
-/
import TreeDiff.Proofs.SingleSettings
import TreeDiff.Proofs.VariableLayers

namespace TreeDiff

lemma Leaf.name_mem_settingNames {α : Type} (leaf : Leaf α) :
    leaf.name ∈ leaf.part.settingNames := by
  cases leaf <;> decide

namespace Section

lemma mem_all (part : Section) : part ∈ all := by cases part <;> decide

/-- Sections that are listed once each are found under their names. -/
lemma lookup_entries (said : Section → Option Value) {parts : List Section}
    (hnodup : (parts.map name).Nodup) :
    (Value.textKeys (entries said parts)).Sublist (parts.map name) ∧
    ∀ part ∈ parts, Value.lookup part.name (entries said parts) = said part := by
  induction parts with
  | nil => exact ⟨List.Sublist.slnil, fun _ hpart => absurd hpart List.not_mem_nil⟩
  | cons first rest ih =>
    rw [List.map_cons, List.nodup_cons] at hnodup
    obtain ⟨hsub, hrest⟩ := ih hnodup.2
    -- no section is listed twice, so the rest has nothing under the first name
    have hnone : Value.lookup first.name (entries said rest) = none :=
      Value.lookup_eq_none_iff.2 fun hmem => hnodup.1 (hsub.subset hmem)
    rw [entries, List.filterMap_cons]
    cases hsaid : said first with
    | none =>
      refine ⟨hsub.cons _, fun part hpart => ?_⟩
      rcases List.mem_cons.1 hpart with rfl | hpart
      · exact hnone.trans hsaid.symm
      · exact hrest part hpart
    | some v =>
      refine ⟨hsub.cons_cons _, fun part hpart => ?_⟩
      change Value.lookup part.name ((.text first.name, v) :: entries said rest) = _
      rw [Value.lookup_cons]
      rcases List.mem_cons.1 hpart with rfl | hpart
      · rw [if_pos rfl, hsaid]
      · have hne : first.name ≠ part.name := fun heq => hnodup.1 (heq ▸ List.mem_map_of_mem hpart)
        rw [if_neg fun heq => hne (Value.text.inj heq)]
        exact hrest part hpart

end Section

namespace Settings

lemma exists_mem_of_lookup {entries : List (Value × Value)} {name : String} {v : Value}
    (h : Value.lookup name entries = some v) :
    ∃ p ∈ entries, p.2 = v := by
  rw [← Value.find?_text] at h
  obtain ⟨k, hmem, -⟩ := Value.exists_mem_of_find? h
  exact ⟨_, hmem, rfl⟩

section

variable [Reader] {entries : List (Value × Value)} {part : Section}

/-- A file has no entries, or those of the map that its document is. -/
lemma fileEntries_eq_ok {files : Files} {file : Path} (h : fileEntries files file = .ok entries) :
    entries = [] ∨ ∃ bytes, Reader.document file.text bytes = .ok (.map entries) := by
  rw [fileEntries] at h
  split at h
  · cases h
    exact Or.inl rfl
  · split at h
    · cases h
    · next bytes _ =>
      split at h
      · cases h
      · next hread =>
        cases h
        exact Or.inr ⟨bytes, hread⟩
      · split at h
        · cases h
          exact Or.inl rfl
        · cases h

variable [Reader.Lawful]

/-- A file is a layer for every section that it gives as a map. -/
lemma isLayer_of_fileEntries {files : Files} {file : Path}
    (h : fileEntries files file = .ok entries)
    (hmap : ∀ v, Value.lookup part.name entries = some v → ∃ inner, v = .map inner) :
    Value.IsLayer part.name entries := by
  rcases fileEntries_eq_ok h with rfl | ⟨bytes, hread⟩
  · refine ⟨List.nodup_nil, fun v hv => ?_⟩
    cases hv
  · obtain ⟨hnodup, hinner⟩ := Reader.Lawful.nodup_document hread
    refine ⟨hnodup, fun v hv => ?_⟩
    obtain ⟨inner, rfl⟩ := hmap v hv
    obtain ⟨p, hp, heq⟩ := exists_mem_of_lookup hv
    exact ⟨inner, rfl, hinner p hp inner heq⟩

/-- The layer of the variables: what is found in it about a setting is what its variable says, or
else the one of its section, or a map. -/
lemma isLayer_variableEntries {environment : Variables}
    (h : variableEntries environment = .ok entries) (hmap : part.GivesMap environment) :
    Value.IsLayer part.name entries ∧ ∀ n ∈ part.settingNames,
      Value.Fits ((part.singleValue? environment n).or (part.wholeValue? environment n))
        (Value.settingIn entries part.name n) := by
  obtain ⟨said, hsaid, h⟩ := exists_of_bind_eq_ok h
  cases h
  have hsaid := mapError_eq_ok_iff.1 hsaid
  have hnodup : (Section.all.map Section.name).Nodup := by decide
  obtain ⟨hsub, hfound⟩ := Section.lookup_entries said hnodup
  refine ⟨⟨hsub.nodup hnodup, fun v hv => ?_⟩, fun n hn => ?_⟩
  · rw [hfound part part.mem_all] at hv
    exact Reader.Lawful.isMap_sections hsaid hmap hv
  · rw [Value.settingIn, hfound part part.mem_all]
    exact Reader.Lawful.fits_sections hsaid hmap hn

end

variable {α : Type} {s : Sources} {settings : Settings} {entries : List (Value × Value)}
  {leaf : Leaf α}

namespace Sources

section

variable [Reader]

/-- What a file says about a setting. -/
def inFile (s : Sources) (file : Path) (leaf : Leaf α) : Option Value :=
  match fileEntries s.files file with
  | .ok entries => Value.settingIn entries leaf.part.name leaf.name
  | .error _ => none

/-- What the sources say about a setting, in the order in which they count: what a program gives,
the variable of the setting, the variable of its section, the file of the project, and that of the
user. -/
def sayings (s : Sources) (leaf : Leaf α) : List (Option Value) :=
  [Value.settingIn s.given leaf.part.name leaf.name,
    leaf.part.singleValue? s.environment leaf.name,
    leaf.part.wholeValue? s.environment leaf.name,
    s.inFile s.projectFile leaf,
    s.inFile s.userFile leaf]

/-- What the first source says that says something about a setting. -/
def firstSaying (s : Sources) (leaf : Leaf α) : Option Value := (s.sayings leaf).findSome? id

/-- Every source that gives a section gives it as a map. -/
structure GivesMaps (s : Sources) (part : Section) : Prop where
  given : Value.IsLayer part.name s.given
  environment : part.GivesMap s.environment
  files : ∀ file ∈ [s.projectFile, s.userFile], ∀ entries, fileEntries s.files file = .ok entries →
    ∀ v, Value.lookup part.name entries = some v → ∃ inner, v = .map inner

/-- What is merged, when no section is complete. -/
lemma entries_eq_ok (h : s.entries = .ok entries) (hcomplete : s.complete = []) :
    ∃ user project held, fileEntries s.files s.userFile = .ok user ∧
      fileEntries s.files s.projectFile = .ok project ∧ variableEntries s.environment = .ok held ∧
      entries = Value.mergeEntries (Value.mergeEntries user project)
        (Value.mergeEntries held s.given) := by
  obtain ⟨user, huser, h⟩ := exists_of_bind_eq_ok h
  obtain ⟨project, hproject, h⟩ := exists_of_bind_eq_ok h
  obtain ⟨held, hheld, h⟩ := exists_of_bind_eq_ok h
  cases h
  refine ⟨user, project, held, huser, hproject, hheld, ?_⟩
  simp [hcomplete]

lemma firstSaying_eq : s.firstSaying leaf =
    ((Value.settingIn s.given leaf.part.name leaf.name).or
      ((leaf.part.singleValue? s.environment leaf.name).or
        (leaf.part.wholeValue? s.environment leaf.name))).or
      ((s.inFile s.projectFile leaf).or (s.inFile s.userFile leaf)) := by
  have hfirst : ∀ a b c d e : Option Value,
      [a, b, c, d, e].findSome? id = (a.or (b.or c)).or (d.or e) := by
    intro a b c d e
    cases a <;> cases b <;> cases c <;> cases d <;> cases e <;> rfl
  exact hfirst _ _ _ _ _

/-- The merged layers hold what the first source says, or a map. -/
lemma fits_entries [Reader.Lawful] (h : s.entries = .ok entries) (hcomplete : s.complete = [])
    (hmaps : s.GivesMaps leaf.part) :
    Value.Fits (s.firstSaying leaf) (Value.settingIn entries leaf.part.name leaf.name) := by
  obtain ⟨user, project, held, huser, hproject, hheld, rfl⟩ := entries_eq_ok h hcomplete
  have huserLayer := isLayer_of_fileEntries huser (hmaps.files _ (by simp) user huser)
  have hprojectLayer := isLayer_of_fileEntries hproject (hmaps.files _ (by simp) project hproject)
  obtain ⟨hheldLayer, hheldFits⟩ := isLayer_variableEntries hheld hmaps.environment
  obtain ⟨hlower, hlowerEq⟩ := huserLayer.merge hprojectLayer
  obtain ⟨hupper, hupperEq⟩ := hheldLayer.merge hmaps.given
  -- the file of the project lies over that of the user, and what is given over the variables
  have hfiles : Value.Fits ((s.inFile s.projectFile leaf).or (s.inFile s.userFile leaf))
      (Value.settingIn (Value.mergeEntries user project) leaf.part.name leaf.name) := by
    rw [hlowerEq, inFile, inFile, huser, hproject]
    exact (Value.Fits.self _).overlaid (Value.Fits.self _)
  have hothers := (Value.Fits.self (Value.settingIn s.given leaf.part.name leaf.name)).overlaid
    (hheldFits leaf.name leaf.name_mem_settingNames)
  rw [← hupperEq] at hothers
  have hall := hothers.overlaid hfiles
  rw [← (hlower.merge hupper).2] at hall
  rw [firstSaying_eq]
  exact hall

end

end Sources

section

variable [Coercions] [Reader]

/-- What is loaded without complete sections has been read from the merged entries. -/
lemma ofEntries_of_load [Coercions.Lawful] (h : load s = .ok settings)
    (hcomplete : s.complete = []) :
    ∃ entries, s.entries = .ok entries ∧ ofEntries s.homes entries = .ok settings := by
  obtain ⟨entries, hentries, h⟩ := exists_of_bind_eq_ok h
  split at h
  · split at h
    · next read hboth =>
      obtain ⟨hread, -⟩ := Checked.both_eq_ok.1 hboth
      rw [hcomplete, List.foldl_nil, recheck_of_ofEntries hread] at h
      cases h
      exact ⟨entries, hentries, hread⟩
    · cases h
  · cases h

lemma inRange_of_load (h : load s = .ok settings) : settings.InRange := by
  obtain ⟨entries, -, h⟩ := exists_of_bind_eq_ok h
  split at h
  · split at h
    · exact inRange_of_recheck h
    · cases h
  · cases h

/-- **Each setting comes from the first source that says something about it.**  Settings that are
loaded are within their ranges.  If nothing is given as a complete section, and the sources give a
section as maps, then each setting in it is what the first source says about it, checked, or else
the usual one, whatever is said about the other settings. -/
theorem holds_of_load [Coercions.Lawful] [Reader.Lawful] (h : load s = .ok settings) :
    settings.InRange ∧ (s.complete = [] → ∀ {α : Type} (leaf : Leaf α), s.GivesMaps leaf.part →
      leaf.Holds s.homes (s.firstSaying leaf) (leaf.get settings)) := by
  refine ⟨inRange_of_load h, fun hcomplete α leaf hmaps => ?_⟩
  obtain ⟨entries, hentries, hread⟩ := ofEntries_of_load h hcomplete
  have hholds := leaf.holds_of_ofEntries hread
  rcases Sources.fits_entries hentries hcomplete hmaps with heq | ⟨inner, hmap⟩
  · rw [← heq]
    exact hholds
  · rw [hmap] at hholds
    exact absurd hholds (leaf.check_map inner)

end

/-- A program, a variable and the file of a project that speak about the same section. -/
def layered : Sources where
  files := ⟨[], [(["project.yaml"], .file (Text.Utf8.encode
    "diff:\n  truncate_length: 20\n  similarity_threshold: 1.0\n"))]⟩
  homes := ⟨"/home/user", []⟩
  userFile := ⟨.root, ["user.yaml"]⟩
  projectFile := ⟨.root, ["project.yaml"]⟩
  environment := [("LORAXMOD__DIFF__TRUNCATE_LENGTH", "30")]
  given := [(.text "diff", .map [(.text "include_full_text", .bool true)])]
  complete := []

/-- Whether a value is a map. -/
def isMap : Value → Bool
  | .map _ => true
  | _ => false

lemma givesMaps_layered (part : Section) : layered.GivesMaps part := by
  refine ⟨⟨by decide, fun v hv => ?_⟩, fun text htext => ?_,
    fun file hfile entries hentries v hv => ?_⟩
  · cases part with
    | diff =>
      cases hv
      exact ⟨_, rfl, by decide⟩
    | _ => cases hv
  · have hnone : layered.environment.last? part.variableName = none := by
      cases part <;> decide +kernel
    rw [hnone] at htext
    cases htext
  · have hmaps : ∀ file ∈ [layered.projectFile, layered.userFile],
        (fileEntries layered.files file).toOption.all (fun es => es.all fun e => isMap e.2) =
          true := by
      decide +kernel
    have hall := hmaps file hfile
    rw [hentries] at hall
    obtain ⟨e, he, rfl⟩ := exists_mem_of_lookup hv
    have hmap := List.all_eq_true.1 hall e he
    cases hvalue : e.2 with
    | map inner => exact ⟨inner, rfl⟩
    | _ => simp [hvalue, isMap] at hmap

/-- The value of a setting of which something is said, if that is accepted. -/
def valueOf (homes : Homes) (leaf : Leaf α) : Option Value → Option α
  | none => some leaf.usual
  | some v => (leaf.check homes v).toOption

lemma valueOf_eq_some {homes : Homes} {said : Option Value} {a : α} (h : leaf.Holds homes said a) :
    valueOf homes leaf said = some a := by
  cases said with
  | none => exact congrArg some (show a = leaf.usual from h).symm
  | some v => exact congrArg Except.toOption (show leaf.check homes v = .ok a from h)

/-- All three are heard: the variable about the length, on which the file has another opinion, the
program about full texts, and the file about the threshold. -/
theorem holds_layered : ∃ settings, load layered = .ok settings ∧ settings.InRange ∧
    settings.diff.threshold = .one ∧ settings.diff.truncateLength = 30 ∧
    settings.diff.fullText = true ∧ settings.logging.level = .warning := by
  have hload : (load layered).toOption.isSome = true := by decide +kernel
  cases h : load layered with
  | error failure =>
    rw [h] at hload
    cases hload
  | ok settings =>
    obtain ⟨hrange, hholds⟩ := holds_of_load h
    have hvalue : ∀ {α : Type} (leaf : Leaf α) (a : α),
        valueOf layered.homes leaf (layered.firstSaying leaf) = some a → leaf.get settings = a := by
      intro α leaf a ha
      rw [valueOf_eq_some (hholds rfl leaf (givesMaps_layered leaf.part))] at ha
      exact Option.some.inj ha
    obtain ⟨hthreshold, hlength, hfull, hlevel⟩ :
        valueOf layered.homes .threshold (layered.firstSaying .threshold) = some .one ∧
        valueOf layered.homes .truncateLength (layered.firstSaying .truncateLength) = some 30 ∧
        valueOf layered.homes .fullText (layered.firstSaying .fullText) = some true ∧
        valueOf layered.homes .level (layered.firstSaying .level) = some .warning := by
      decide +kernel
    exact ⟨settings, rfl, hrange, hvalue _ _ hthreshold, hvalue _ _ hlength, hvalue _ _ hfull,
      hvalue _ _ hlevel⟩

end Settings

end TreeDiff
