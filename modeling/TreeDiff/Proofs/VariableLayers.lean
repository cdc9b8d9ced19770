/-
# The layer of the variables

What the environment variables say about a single setting: the variable of the setting counts, then
the one that holds the whole section.  Names count in lower case, so of two variables that differ in
case alone the later one is heard.  A variable whose name goes on below a setting can only put a map
in its place, which no setting is.
-/
import Mathlib
import TreeDiff.Proofs.DistinctNames
import TreeDiff.Proofs.Readers
import TreeDiff.Proofs.Reading
import TreeDiff.Proofs.YamlKeys

namespace TreeDiff

/-! ## Names in lower case -/

/-- A name in which no letter is a capital. -/
def IsLower (name : String) : Prop := ∀ c ∈ name.toList, c.toLower = c

lemma isLower_map (name : String) : IsLower (name.map Char.toLower) := by
  intro c hc
  rw [String.toList_map] at hc
  obtain ⟨d, -, rfl⟩ := List.mem_map.1 hc
  exact Char.toLower_toLower_eq_toLower d

lemma IsLower.map_eq {name : String} (h : IsLower name) : name.map Char.toLower = name := by
  rw [← String.toList_inj, String.toList_map, List.map_congr_left h, List.map_id']

lemma lookup_assocPut_eq {κ ν : Type} [BEq κ] [LawfulBEq κ] {key other : κ} {value : ν}
    {members : List (κ × ν)} : (assocPut key value members).lookup other =
      if other == key then some value else members.lookup other := by
  induction members with
  | nil =>
    rw [assocPut, List.lookup_cons]
    cases other == key <;> rfl
  | cons member rest ih =>
    obtain ⟨k, v⟩ := member
    rw [assocPut]
    by_cases hk : k = key
    · subst hk
      rw [if_pos BEq.rfl, List.lookup_cons, List.lookup_cons]
      cases other == k <;> rfl
    · have hbeq : ¬(k == key) = true := fun h => hk (eq_of_beq h)
      rw [if_neg hbeq, List.lookup_cons, List.lookup_cons, ih]
      cases hother : other == k with
      | false => rfl
      | true =>
        have hne : ¬(other == key) = true := fun h =>
          hk ((eq_of_beq hother).symm.trans (eq_of_beq h))
        exact (if_neg hne).symm

namespace Variables

variable {environment : Variables} {name : String}

lemma lowered_concat (v : String × String) :
    lowered (environment ++ [v]) = assocPut (v.1.map Char.toLower) v.2 environment.lowered := by
  rw [lowered, List.foldl_append]
  rfl

lemma lookup_lowered : environment.lowered.lookup name = environment.last? name := by
  induction environment using List.reverseRecOn with
  | nil => rfl
  | append_singleton rest v ih =>
    rw [lowered_concat, lookup_assocPut_eq, ih, last?, last?, List.reverse_concat, List.find?_cons]
    by_cases h : v.1.map Char.toLower = name
    · simp [h]
    · simp [h, Ne.symm h]

lemma nodup_lowered : (environment.lowered.map Prod.fst).Nodup := by
  induction environment using List.reverseRecOn with
  | nil => exact List.nodup_nil
  | append_singleton rest v ih =>
    rw [lowered_concat]
    exact nodup_assocPut ih

lemma isLower_of_mem_lowered {v : String × String} (h : v ∈ environment.lowered) :
    IsLower v.1 := by
  induction environment using List.reverseRecOn generalizing v with
  | nil => cases h
  | append_singleton rest last ih =>
    rw [lowered_concat] at h
    rcases mem_assocPut h with rfl | h
    · exact isLower_map last.1
    · exact ih h

lemma decode_eq_ok {text : String} {v : Value} :
    decode name text = .ok v ↔ json? text = some v := by
  rw [decode]
  cases json? text <;> simp

/-! ## Parts of names -/

lemma splitParts_ne_nil {chars : List Char} : splitParts chars ≠ [] := by
  intro h
  rw [splitParts.eq_def] at h
  split at h
  · cases h
  · cases h
  · split at h <;> cases h

/-- A name with one part has no separator. -/
lemma eq_of_splitParts {chars part : List Char} (h : splitParts chars = [part]) : chars = part := by
  induction chars using splitParts.induct generalizing part with
  | case1 =>
    cases h
    rfl
  | case2 rest ih =>
    rw [splitParts, List.cons.injEq] at h
    exact absurd h.2 splitParts_ne_nil
  | case3 c rest hsep hsplit ih => exact absurd hsplit splitParts_ne_nil
  | case4 c rest hsep head tail hsplit ih =>
    rw [splitParts, hsplit, List.cons.injEq] at h
    · obtain ⟨rfl, rfl⟩ := h
      rw [ih hsplit]
    · exact hsep

lemma mem_of_mem_splitParts {chars part : List Char} (h : part ∈ splitParts chars) :
    ∀ c ∈ part, c ∈ chars := by
  induction chars using splitParts.induct generalizing part with
  | case1 =>
    rw [List.mem_singleton.1 h]
    exact fun _ hc => hc
  | case2 rest ih =>
    rw [splitParts] at h
    intro c hc
    rcases List.mem_cons.1 h with rfl | h
    · cases hc
    · exact List.mem_cons_of_mem _ (List.mem_cons_of_mem _ (ih h c hc))
  | case3 c rest hsep hsplit ih => exact absurd hsplit splitParts_ne_nil
  | case4 c rest hsep head tail hsplit ih =>
    rw [splitParts, hsplit] at h
    · intro d hd
      rcases List.mem_cons.1 h with rfl | h
      · rcases List.mem_cons.1 hd with rfl | hd
        · exact List.mem_cons_self
        · exact List.mem_cons_of_mem _ (ih (hsplit ▸ List.mem_cons_self) d hd)
      · exact List.mem_cons_of_mem _ (ih (hsplit ▸ List.mem_cons_of_mem _ h) d hd)
    · exact hsep

end Variables

/-! ## Single variables -/

/-- Entries whose keys are names in lower case, each once. -/
structure HasLowerKeys (entries : List (Value × Value)) : Prop where
  isLower : ∀ e ∈ entries, ∃ name, e.1 = .text name ∧ IsLower name
  nodup : (Value.textKeys entries).Nodup

section

variable {n name : String} {value : Value} {entries : List (Value × Value)} {names : List String}
  {said : Option Value}

lemma HasLowerKeys.put (h : HasLowerKeys entries) (hname : IsLower name) :
    HasLowerKeys (Value.put (.text name) value entries) := by
  refine ⟨fun e he => ?_, Value.nodup_textKeys_put h.nodup⟩
  rcases Value.mem_put he with hmem | ⟨-, heq | ⟨old, hold, heq⟩⟩
  · exact h.isLower e hmem
  · exact ⟨name, heq, hname⟩
  · rw [← heq]
    exact h.isLower old hold

lemma HasLowerKeys.place (h : HasLowerKeys entries) (hnames : ∀ name ∈ names, IsLower name) :
    HasLowerKeys (Variables.place value names entries) := by
  cases names with
  | nil => exact h
  | cons name rest =>
    have hname := hnames name List.mem_cons_self
    cases rest with
    | nil => exact h.put hname
    | cons next rest =>
      rw [Variables.place]
      split
      · exact h.put hname
      · exact h.put hname
      · exact h

/-- A chain of names other than a setting's own leaves the setting alone, or puts a map there. -/
lemma fits_place (hnames : names ≠ [n]) (h : Value.Fits said (Value.lookup n entries)) :
    Value.Fits said (Value.lookup n (Variables.place value names entries)) := by
  cases names with
  | nil => exact h
  | cons name rest =>
    cases rest with
    | nil =>
      have hne : name ≠ n := fun heq => hnames (heq ▸ rfl)
      rw [Variables.place, Value.lookup_put_text, if_neg hne]
      exact h
    | cons next rest =>
      rw [Variables.place]
      split
      · rw [Value.lookup_put_text]
        split
        · exact Or.inr ⟨_, rfl⟩
        · exact h
      · rw [Value.lookup_put_text]
        split
        · exact Or.inr ⟨_, rfl⟩
        · exact h
      · exact h

end

namespace Section

variable {part : Section} {n name text : String} {value v : Value}
  {entries whole : List (Value × Value)} {names : List String} {said : Option Value}
  {environment : Variables}

lemma toList_settingVariable : (part.settingVariable n).toList =
    (part.variableName ++ Variables.separator).toList ++ n.toList :=
  String.toList_append

/-- One variable more: keys stay names in lower case, the variable of the setting puts its value
there, and any other one leaves the setting alone or puts a map there. -/
lemma addSingle_eq_ok {es : List (Value × Value)} (said : Option Value)
    (h : part.addSingle entries (name, text) = .ok es) (hname : IsLower name)
    (hentries : HasLowerKeys entries) (hn : Variables.splitParts n.toList = [n.toList]) :
    HasLowerKeys es ∧
    (name = part.settingVariable n →
      ∃ v, part.variableValue [n] text = .ok v ∧ Value.lookup n es = some v) ∧
    (name ≠ part.settingVariable n →
      Value.Fits said (Value.lookup n entries) → Value.Fits said (Value.lookup n es)) := by
  simp only [addSingle] at h
  by_cases hprefix : (part.variableName ++ Variables.separator).toList <+: name.toList
  · rw [if_pos (List.isPrefixOf_iff_prefix.2 hprefix)] at h
    obtain ⟨v, hv, h⟩ := exists_of_bind_eq_ok h
    cases h
    obtain ⟨rest, hrest⟩ := hprefix
    rw [← hrest, List.drop_left] at hv ⊢
    refine ⟨hentries.place fun m hm => ?_, fun heq => ?_, fun hne hfits => fits_place ?_ hfits⟩
    · obtain ⟨chars, hchars, rfl⟩ := List.mem_map.1 hm
      intro c hc
      rw [String.toList_ofList] at hc
      refine hname c ?_
      rw [← hrest]
      exact List.mem_append_right _ (Variables.mem_of_mem_splitParts hchars c hc)
    · rw [heq, toList_settingVariable, List.append_cancel_left_eq] at hrest
      rw [hrest, hn] at hv ⊢
      rw [List.map_singleton, String.ofList_toList] at hv ⊢
      exact ⟨v, hv, by rw [Variables.place, Value.lookup_put_text, if_pos rfl]⟩
    · -- a single part that is the name of the setting is the variable of the setting
      intro hnames
      obtain ⟨chars, hchars, heq⟩ := List.map_eq_singleton_iff.1 hnames
      have hlist : n.toList = rest := by
        rw [← heq, String.toList_ofList, Variables.eq_of_splitParts hchars]
      refine hne (String.toList_inj.1 ?_)
      rw [toList_settingVariable, hlist, hrest]
  · rw [if_neg fun hpre => hprefix (List.isPrefixOf_iff_prefix.1 hpre)] at h
    cases h
    refine ⟨hentries, fun heq => absurd ?_ hprefix, fun _ hfits => hfits⟩
    rw [heq, toList_settingVariable]
    exact List.prefix_append _ _

/-- All variables, one after the other: what the variable of the setting says is found, or a map;
and without such a variable a map is all that can come instead of what was there. -/
lemma foldlM_addSingle_eq_ok {es : List (Value × Value)}
    (h : environment.foldlM part.addSingle entries = .ok es)
    (hnodup : (environment.map Prod.fst).Nodup) (hlower : ∀ v ∈ environment, IsLower v.1)
    (hentries : HasLowerKeys entries) (hn : Variables.splitParts n.toList = [n.toList]) :
    HasLowerKeys es ∧
    (∀ text, environment.lookup (part.settingVariable n) = some text →
      ∃ v, part.variableValue [n] text = .ok v ∧ Value.Fits (some v) (Value.lookup n es)) ∧
    (environment.lookup (part.settingVariable n) = none →
      ∀ said, Value.Fits said (Value.lookup n entries) → Value.Fits said (Value.lookup n es)) := by
  induction environment generalizing entries with
  | nil =>
    cases h
    refine ⟨hentries, fun text htext => ?_, fun _ said hfits => hfits⟩
    cases htext
  | cons held rest ih =>
    obtain ⟨name, text⟩ := held
    rw [List.foldlM_cons] at h
    obtain ⟨mid, hmid, hrest⟩ := exists_of_bind_eq_ok h
    rw [List.map_cons, List.nodup_cons] at hnodup
    have hname := hlower _ List.mem_cons_self
    have hkeys := fun said => addSingle_eq_ok said hmid hname hentries hn
    obtain ⟨hes, hsome, hnone⟩ := ih hrest hnodup.2
      (fun v hv => hlower v (List.mem_cons_of_mem _ hv)) (hkeys none).1
    refine ⟨hes, fun text' htext' => ?_, fun hlookup said hfits => ?_⟩
    · rw [List.lookup_cons] at htext'
      split at htext'
      · next heq =>
        cases htext'
        have hname := (eq_of_beq heq).symm
        obtain ⟨v, hv, hfound⟩ := (hkeys none).2.1 hname
        refine ⟨v, hv, hnone ?_ _ (Or.inl hfound)⟩
        -- no other variable has the name
        rw [← hname]
        refine List.lookup_eq_none_iff.2 fun ⟨other, _⟩ hp => bne_iff_ne.2 ?_
        rintro rfl
        exact hnodup.1 (List.mem_map.2 ⟨_, hp, rfl⟩)
      · exact hsome text' htext'
    · rw [List.lookup_cons] at hlookup
      split at hlookup
      · cases hlookup
      · next heq =>
        have hne : name ≠ part.settingVariable n := by
          rintro rfl
          simp at heq
        exact hnone hlookup said ((hkeys said).2.2 hne hfits)

/-! ## Proper names -/

/-- Whether an entry comes under the name of a setting. -/
def isProper (part : Section) (n : String) (e : Value × Value) : Bool :=
  (part.properName e.1).sameKey (.text n)

lemma isProper_text_iff (hn : n ∈ part.settingNames) (hlower : IsLower n) {value : Value} :
    part.isProper n (.text name, value) = true ↔ name.map Char.toLower = n := by
  rw [isProper, Value.sameKey_text, properName]
  cases hfind : part.settingNames.find? fun m => m = name.map Char.toLower with
  | some proper =>
    have hproper : proper = name.map Char.toLower := by simpa using List.find?_some hfind
    rw [Value.text.injEq, hproper]
  | none =>
    have hnone := List.find?_eq_none.1 hfind
    rw [Value.text.injEq]
    constructor
    · rintro rfl
      exact hlower.map_eq
    · intro heq
      exact absurd (decide_eq_true heq.symm) (hnone n hn)

/-- What is about a setting comes under its name. -/
lemma isProper_eq_denotes (hn : n ∈ part.settingNames) (hlower : IsLower n) :
    part.isProper n = denotes n := by
  funext ⟨key, value⟩
  rw [Bool.eq_iff_iff]
  cases key with
  | text name => simp [isProper_text_iff hn hlower, denotes]
  | _ => simp [isProper, properName, denotes]

lemma lookup_put_properName {key : Value} :
    Value.lookup n (Value.put (part.properName key) value entries) =
      if part.isProper n (key, value) then some value else Value.lookup n entries := by
  by_cases hproper : part.isProper n (key, value) = true
  · have hkey : part.properName key = .text n := Value.sameKey_text.1 hproper
    rw [if_pos hproper, hkey, Value.lookup_put_text, if_pos rfl]
  · have hkey : part.properName key ≠ .text n := mt Value.sameKey_text.2 hproper
    rw [if_neg hproper]
    rcases Value.text_or (part.properName key) with ⟨m, hm⟩ | hother
    · rw [hm, Value.lookup_put_text, if_neg (by rintro rfl; exact hkey hm)]
    · exact Value.lookup_put_other hother

/-- An entry that comes last is put under its proper name over the others. -/
lemma properEntries_concat {e : Value × Value} : part.properEntries (entries ++ [e]) =
    Value.put (part.properName e.1) e.2 (part.properEntries entries) := by
  rw [properEntries, List.foldl_append]
  rfl

/-- Under a proper name stands what the last entry says that comes under the name of the setting. -/
lemma lookup_properEntries : Value.lookup n (part.properEntries entries) =
    ((entries.filter (part.isProper n)).getLast?).map (·.2) := by
  induction entries using List.reverseRecOn with
  | nil => rfl
  | append_singleton rest e ih =>
    rw [properEntries_concat, lookup_put_properName, List.filter_append, ih, List.filter_singleton]
    by_cases hproper : part.isProper n e = true
    · rw [if_pos hproper, hproper, Bool.cond_true, List.getLast?_append]
      rfl
    · rw [if_neg hproper, Bool.eq_false_iff.2 hproper, Bool.cond_false, List.append_nil]

/-- Putting an entry touches those under the name of a setting only if it comes there itself. -/
lemma filter_put : (Value.put (.text name) value entries).filter (part.isProper n) =
      if part.isProper n (.text name, value) then
        Value.put (.text name) value (entries.filter (part.isProper n))
      else entries.filter (part.isProper n) := by
  -- where an entry comes is told by its key
  have hvalue : ∀ k v, part.isProper n (k, v) = part.isProper n (k, value) := fun _ _ => rfl
  induction entries with
  | nil =>
    rw [Value.put, List.filter_cons]
    rfl
  | cons e rest ih =>
    obtain ⟨k, v⟩ := e
    rw [Value.put]
    by_cases hk : k.sameKey (.text name) = true
    · have heq := Value.sameKey_text.1 hk
      rw [if_pos hk, List.filter_cons, List.filter_cons, hvalue k v, heq]
      by_cases hproper : part.isProper n (.text name, value) = true
      · rw [if_pos hproper, if_pos hproper, if_pos hproper, Value.put,
          if_pos (Value.sameKey_text.2 rfl)]
      · rw [if_neg hproper, if_neg hproper, if_neg hproper]
    · rw [if_neg hk, List.filter_cons, List.filter_cons, ih]
      by_cases hkey : part.isProper n (k, v) = true
      · rw [if_pos hkey, if_pos hkey]
        split
        · rw [Value.put, if_neg hk]
        · rfl
      · rw [if_neg hkey, if_neg hkey]

/-- Of merged entries those come under the name of a setting that did in the lower layer, with what
a single variable says put under the proper name. -/
lemma filter_mergeEntries {single : List (Value × Value)} (hn : n ∈ part.settingNames)
    (hlower : IsLower n) (hsingle : HasLowerKeys single) :
    (Value.mergeEntries whole single).filter (part.isProper n) =
      match Value.lookup n single with
      | none => whole.filter (part.isProper n)
      | some s => Value.put (.text n) ((Value.overlaid (some s) (Value.find? (.text n) whole)).getD s)
          (whole.filter (part.isProper n)) := by
  induction single generalizing whole with
  | nil => rfl
  | cons e rest ih =>
    obtain ⟨k, v⟩ := e
    obtain ⟨m, hm, hmlower⟩ := hsingle.isLower _ List.mem_cons_self
    cases hm
    have hnodup := hsingle.nodup
    rw [Value.textKeys_cons_text, List.nodup_cons] at hnodup
    have hrest : HasLowerKeys rest :=
      ⟨fun e he => hsingle.isLower e (List.mem_cons_of_mem _ he), hnodup.2⟩
    rw [Value.mergeEntries, ih hrest, filter_put, Value.lookup_cons]
    by_cases hmn : m = n
    · subst hmn
      rw [if_pos ((isProper_text_iff hn hlower).2 hmlower.map_eq), if_pos rfl,
        Value.lookup_eq_none_iff.2 hnodup.1]
      cases Value.find? (.text m) whole <;> rfl
    · have hproper : ∀ v, ¬part.isProper n (.text m, v) = true := fun v h =>
        hmn (hmlower.map_eq.symm.trans ((isProper_text_iff hn hlower).1 h))
      have htext : Value.text m ≠ .text n := fun h => hmn (Value.text.inj h)
      rw [if_neg htext, if_neg (hproper _), Value.find?_text, Value.lookup_put_text, if_neg hmn,
        Value.find?_text]

/-- What is put under a text into at most one other entry comes last. -/
lemma getLast?_put (h : entries.length ≤ 1) :
    ((Value.put (.text n) value entries).getLast?).map (·.2) = some value := by
  match entries, h with
  | [], _ => rfl
  | [e], _ =>
    rw [Value.put]
    split <;> rfl

/-- Under a proper name stands what a single variable says, or else what the section says that the
single variables are laid over, or a map. -/
lemma fits_properEntries {single : List (Value × Value)} (hn : n ∈ part.settingNames)
    (hlower : IsLower n) (hsingle : HasLowerKeys single)
    (honce : (whole.filter (part.isProper n)).length ≤ 1)
    (hfits : Value.Fits said (Value.lookup n single)) :
    Value.Fits (said.or ((whole.find? (part.isProper n)).map (·.2)))
      (Value.lookup n (part.properEntries (Value.mergeEntries whole single))) := by
  rw [lookup_properEntries, filter_mergeEntries hn hlower hsingle, ← List.head?_filter]
  cases hs : Value.lookup n single with
  | none =>
    rw [hs] at hfits
    rcases hfits with rfl | ⟨_, hmap⟩
    · refine Or.inl ?_
      match whole.filter (part.isProper n), honce with
      | [], _ => rfl
      | [e], _ => rfl
    · cases hmap
  | some s =>
    rw [hs] at hfits
    rw [getLast?_put honce]
    rcases hfits with rfl | ⟨entries, hmap⟩
    · cases Value.find? (.text n) whole with
      | none => exact Or.inl rfl
      | some below =>
        have hbelow : Value.Fits (some below) (some below) := Or.inl rfl
        have hover : Value.Fits ((some s).or (some below)) (Value.overlaid (some s) (some below)) :=
          Value.Fits.overlaid (Or.inl rfl) hbelow
        exact hover
    · cases hmap
      cases Value.find? (.text n) whole with
      | none => exact Or.inr ⟨entries, rfl⟩
      | some below => cases below <;> exact Or.inr ⟨_, rfl⟩

/-! ## The variables of a section -/

/-- Each setting has a name in lower case and without a separator. -/
lemma settingNames_spec : ∀ n ∈ part.settingNames,
    IsLower n ∧ Variables.splitParts n.toList = [n.toList] := by
  intro n hn
  cases part with
  | logging =>
    simp only [settingNames, LogSettings.names, List.mem_cons, List.not_mem_nil, or_false] at hn
    rcases hn with rfl | rfl <;> exact ⟨by simp [IsLower], by decide⟩
  | diff =>
    simp only [settingNames, DiffSettings.names, List.mem_cons, List.not_mem_nil, or_false] at hn
    rcases hn with rfl | rfl | rfl <;> exact ⟨by simp [IsLower], by decide⟩
  | extraction =>
    simp only [settingNames, ExtractionSettings.names, List.mem_cons, List.not_mem_nil,
      or_false] at hn
    subst hn
    exact ⟨by simp [IsLower], by decide⟩
  | schemas =>
    simp only [settingNames, Schema.SearchPath.names, List.mem_cons, List.not_mem_nil,
      or_false] at hn
    rcases hn with rfl | rfl <;> exact ⟨by simp [IsLower], by decide⟩

lemma HasLowerKeys.nil : HasLowerKeys [] := ⟨fun _ h => absurd h List.not_mem_nil, List.nodup_nil⟩

/-- What the variable of a setting says is what it denotes. -/
lemma settingValue?_eq_some {v : Value} (h : part.variableValue [n] text = .ok v) :
    part.settingValue? n text = some v := by
  rw [variableValue] at h
  rw [settingValue?]
  split at h
  · next hlist =>
    rw [if_pos hlist]
    exact Variables.decode_eq_ok.1 h
  · next hlist =>
    cases h
    exact if_neg hlist

lemma fits_singleEntries (h : part.singleEntries environment.lowered = .ok entries)
    (hn : n ∈ part.settingNames) :
    HasLowerKeys entries ∧
      Value.Fits (part.singleValue? environment n) (Value.lookup n entries) := by
  obtain ⟨hkeys, hsome, hnone⟩ := foldlM_addSingle_eq_ok h Variables.nodup_lowered
    (fun v hv => Variables.isLower_of_mem_lowered hv) HasLowerKeys.nil (settingNames_spec n hn).2
  refine ⟨hkeys, ?_⟩
  rw [singleValue?, ← Variables.lookup_lowered]
  cases hlookup : environment.lowered.lookup (part.settingVariable n) with
  | none => exact hnone hlookup none (Or.inl rfl)
  | some text =>
    obtain ⟨v, hv, hfits⟩ := hsome text hlookup
    rw [Option.bind_some, settingValue?_eq_some hv]
    exact hfits

/-- Names in lower case are proper already. -/
lemma lookup_properEntries_of_lower (hn : n ∈ part.settingNames) (hentries : HasLowerKeys entries) :
    Value.lookup n (part.properEntries entries) = Value.lookup n entries := by
  rw [lookup_properEntries]
  have hlower := (settingNames_spec n hn).1
  induction entries with
  | nil => rfl
  | cons e rest ih =>
    obtain ⟨k, v⟩ := e
    obtain ⟨m, hm, hmlower⟩ := hentries.isLower _ List.mem_cons_self
    cases hm
    have hnodup := hentries.nodup
    rw [Value.textKeys_cons_text, List.nodup_cons] at hnodup
    have hrest := ih ⟨fun e he => hentries.isLower e (List.mem_cons_of_mem _ he), hnodup.2⟩
    rw [Value.lookup_cons, List.filter_cons]
    by_cases hmn : m = n
    · subst hmn
      rw [Value.lookup_eq_none_iff.2 hnodup.1, Option.map_eq_none_iff] at hrest
      rw [if_pos ((isProper_text_iff hn hlower).2 hmlower.map_eq), if_pos rfl, List.getLast?_cons,
        hrest]
      rfl
    · have hproper : ¬part.isProper n (.text m, v) = true := fun h =>
        hmn (hmlower.map_eq.symm.trans ((isProper_text_iff hn hlower).1 h))
      rw [if_neg hproper, if_neg fun h => hmn (Value.text.inj h), hrest]

lemma nodup_properEntries : (Value.textKeys (part.properEntries entries)).Nodup := by
  induction entries using List.reverseRecOn with
  | nil => exact List.nodup_nil
  | append_singleton rest e ih =>
    rw [properEntries_concat]
    exact Value.nodup_textKeys_put ih

/-- What the variables say about a section, setting by setting. -/
lemma fits_ofVariables {found : Option Value}
    (h : part.ofVariables environment.lowered = .ok found) (hmap : part.GivesMap environment) :
    (∀ v, found = some v → ∃ inner, v = .map inner ∧ (Value.textKeys inner).Nodup) ∧
    ∀ n ∈ part.settingNames,
      Value.Fits ((part.singleValue? environment n).or (part.wholeValue? environment n))
        (Value.under n found) := by
  rw [ofVariables, Variables.lookup_lowered] at h
  cases hlast : environment.last? part.variableName with
  | none =>
    rw [hlast] at h
    obtain ⟨entries, hentries, h⟩ := exists_of_bind_eq_ok h
    -- single variables alone are under proper names from the start
    have hwhole : ∀ n, part.wholeValue? environment n = none := by
      intro n
      rw [wholeValue?, hlast]
      rfl
    split at h
    · next hempty =>
      cases h
      refine ⟨fun v hv => absurd hv (by simp), fun n hn => ?_⟩
      have hfits := (fits_singleEntries hentries hn).2
      rw [List.isEmpty_iff.1 hempty] at hfits
      rw [hwhole, Option.or_none]
      exact hfits
    · cases h
      refine ⟨fun v hv => ⟨_, (Option.some.inj hv).symm, nodup_properEntries⟩, fun n hn => ?_⟩
      obtain ⟨hkeys, hfits⟩ := fits_singleEntries hentries hn
      rw [hwhole, Option.or_none]
      rw [Value.under, lookup_properEntries_of_lower hn hkeys]
      exact hfits
  | some text =>
    obtain ⟨whole, hdecode, honce⟩ := hmap text hlast
    rw [hlast] at h
    obtain ⟨v, hv, h⟩ := exists_of_bind_eq_ok h
    rw [Variables.decode_eq_ok.2 hdecode] at hv
    cases hv
    obtain ⟨entries, hentries, h⟩ := exists_of_bind_eq_ok h
    cases h
    refine ⟨fun v hv => ⟨_, (Option.some.inj hv).symm, nodup_properEntries⟩, fun n hn => ?_⟩
    obtain ⟨hkeys, hfits⟩ := fits_singleEntries hentries hn
    have hlower := (settingNames_spec n hn).1
    have hproper := isProper_eq_denotes hn hlower
    have hwhole : part.wholeValue? environment n =
        (whole.find? (part.isProper n)).map (·.2) := by
      rw [wholeValue?, hlast, Option.bind_some, hdecode, hproper]
    rw [hwhole]
    exact fits_properEntries hn hlower hkeys (hproper ▸ honce n hn) hfits

end Section

/-! ## The usual reader -/

/-- What the variables say about all sections is what they say about each. -/
lemma Variables.ofVariables_of_sections {environment : Variables} {said : Section → Option Value}
    (h : environment.sections = .ok said) (part : Section) :
    part.ofVariables environment.lowered = .ok (said part) := by
  obtain ⟨logging, hlogging, h⟩ := exists_of_bind_eq_ok h
  obtain ⟨diff, hdiff, h⟩ := exists_of_bind_eq_ok h
  obtain ⟨extraction, hextraction, h⟩ := exists_of_bind_eq_ok h
  obtain ⟨schemas, hschemas, h⟩ := exists_of_bind_eq_ok h
  cases h
  cases part with
  | logging => exact hlogging
  | diff => exact hdiff
  | extraction => exact hextraction
  | schemas => exact hschemas

/-- The usual reader is lawful. -/
instance Reader.lawful_usual : Reader.Lawful where
  nodup_document h := Yaml.nodup_of_readBytes (mapError_eq_ok_iff.1 h)
  isMap_sections h hmap hv :=
    (Section.fits_ofVariables (Variables.ofVariables_of_sections h _) hmap).1 _ hv
  fits_sections h hmap hn :=
    (Section.fits_ofVariables (Variables.ofVariables_of_sections h _) hmap).2 _ hn

end TreeDiff
