/-
# Merged layers

What is found under a text in a map that has been laid over another: the value of the upper map if
it has one, laid over that of the lower map if both are maps, or else the value of the lower map.
With two levels of names this is so name by name, as long as each layer gives its sections as maps.
-/
import Mathlib.Data.List.Nodup
import Mathlib.Tactic.Lemma
import TreeDiff.Proofs.SameKeys

namespace TreeDiff.Value

variable {key value v w k : Value} {name other : String}
  {entries lower upper : List (Value × Value)}

/-! ## Keys that are texts -/

@[simp] lemma sameKey_text : sameKey k (.text name) = true ↔ k = .text name := by
  cases k with
  | float x => cases h : x.toInt? <;> simp [sameKey, keyInt?, keyNumber?, h]
  | _ => simp [sameKey, keyInt?, keyNumber?]

/-- A key that a text is the same as is this text. -/
lemma eq_text_of_sameKey (h : sameKey (.text name) k = true) : k = .text name :=
  sameKey_text.1 (sameKey_symm h)

instance : Decidable (k = .text name) := decidable_of_iff _ sameKey_text

lemma text_or (k : Value) : (∃ name, k = .text name) ∨ ∀ name, k ≠ .text name := by
  cases k with
  | text name => exact Or.inl ⟨name, rfl⟩
  | _ => exact Or.inr fun _ h => by cases h

/-- The keys of a map that are texts, in their order. -/
def textKeys (entries : List (Value × Value)) : List String :=
  entries.filterMap fun e =>
    match e.1 with
    | .text name => some name
    | _ => none

lemma lookup_cons : lookup name ((k, v) :: entries) =
    if k = .text name then some v else lookup name entries := by
  cases k <;> simp [lookup]

lemma textKeys_cons_text : textKeys ((.text name, v) :: entries) = name :: textKeys entries := rfl

lemma textKeys_cons_other (h : ∀ name, k ≠ .text name) :
    textKeys ((k, v) :: entries) = textKeys entries := by
  cases k <;> first | rfl | exact absurd rfl (h _)

lemma lookup_eq_none_iff : lookup name entries = none ↔ name ∉ textKeys entries := by
  induction entries with
  | nil => simp [lookup, textKeys]
  | cons entry rest ih =>
    obtain ⟨k, v⟩ := entry
    rw [lookup_cons]
    rcases text_or k with ⟨m, rfl⟩ | hother
    · rw [textKeys_cons_text, List.mem_cons, not_or, ← ih]
      by_cases hm : m = name
      · simp [hm]
      · simp [hm, Ne.symm hm]
    · rw [textKeys_cons_other hother, ← ih, if_neg (hother name)]

lemma find?_text : find? (.text name) entries = lookup name entries := by
  induction entries with
  | nil => rfl
  | cons entry rest ih =>
    rw [find?_cons, lookup_cons, ih]
    exact if_congr sameKey_text rfl rfl

/-! ## Putting -/

lemma lookup_put_text : lookup name (put (.text other) value entries) =
    if other = name then some value else lookup name entries := by
  rw [← find?_text, find?_put, find?_text]
  exact if_congr (sameKey_text.trans (by rw [Value.text.injEq])) rfl rfl

/-- A key that is no text leaves the texts alone. -/
lemma lookup_put_other (h : ∀ name, key ≠ .text name) :
    lookup name (put key value entries) = lookup name entries := by
  rw [← find?_text, find?_put, if_neg (mt sameKey_text.1 (h name)), find?_text]

lemma textKeys_put_text : textKeys (put (.text name) value entries) =
    if name ∈ textKeys entries then textKeys entries else textKeys entries ++ [name] := by
  induction entries with
  | nil => rfl
  | cons entry rest ih =>
    obtain ⟨k, v⟩ := entry
    rw [put]
    rcases text_or k with ⟨m, rfl⟩ | hother
    · by_cases hm : m = name
      · subst hm
        rw [if_pos (sameKey_text.2 rfl), textKeys_cons_text, textKeys_cons_text,
          if_pos List.mem_cons_self]
      · rw [if_neg (mt sameKey_text.1 (by simpa using hm)), textKeys_cons_text,
          textKeys_cons_text, ih]
        by_cases hmem : name ∈ textKeys rest
        · rw [if_pos hmem, if_pos (List.mem_cons_of_mem _ hmem)]
        · rw [if_neg hmem, if_neg (List.not_mem_cons_of_ne_of_not_mem (Ne.symm hm) hmem)]
          rfl
    · rw [if_neg (mt sameKey_text.1 (hother name)), textKeys_cons_other hother,
        textKeys_cons_other hother, ih]

lemma textKeys_put_other (h : ∀ name, key ≠ .text name) :
    textKeys (put key value entries) = textKeys entries := by
  induction entries with
  | nil => rw [put, textKeys_cons_other h]
  | cons entry rest ih =>
    obtain ⟨k, v⟩ := entry
    rw [put]
    by_cases hk : sameKey k key = true
    · have hother : ∀ m, k ≠ .text m := by
        rintro m rfl
        exact h m (eq_text_of_sameKey hk)
      rw [if_pos hk, textKeys_cons_other hother, textKeys_cons_other hother]
    · rw [if_neg hk]
      rcases text_or k with ⟨m, rfl⟩ | hother
      · rw [textKeys_cons_text, textKeys_cons_text, ih]
      · rw [textKeys_cons_other hother, textKeys_cons_other hother, ih]

lemma nodup_textKeys_put (h : (textKeys entries).Nodup) :
    (textKeys (put key value entries)).Nodup := by
  rcases text_or key with ⟨m, rfl⟩ | hother
  · rw [textKeys_put_text]
    split
    · exact h
    · next hm =>
      rw [← List.concat_eq_append]
      exact h.concat hm
  · rw [textKeys_put_other hother]
    exact h

/-- An entry of a map into which a value has been put was there before, or it is the value under a
key that was there before, or the new entry. -/
lemma mem_put {e : Value × Value} (h : e ∈ put key value entries) :
    e ∈ entries ∨ e.2 = value ∧ (e.1 = key ∨ ∃ old ∈ entries, old.1 = e.1) := by
  induction entries with
  | nil =>
    rw [List.mem_singleton.1 h]
    exact Or.inr ⟨rfl, Or.inl rfl⟩
  | cons entry rest ih =>
    obtain ⟨k, v⟩ := entry
    rw [put] at h
    split at h
    · rcases List.mem_cons.1 h with rfl | h
      · exact Or.inr ⟨rfl, Or.inr ⟨_, List.mem_cons_self, rfl⟩⟩
      · exact Or.inl (List.mem_cons_of_mem _ h)
    · rcases List.mem_cons.1 h with rfl | h
      · exact Or.inl List.mem_cons_self
      · rcases ih h with hmem | ⟨hvalue, hkey | ⟨old, hold, heq⟩⟩
        · exact Or.inl (List.mem_cons_of_mem _ hmem)
        · exact Or.inr ⟨hvalue, Or.inl hkey⟩
        · exact Or.inr ⟨hvalue, Or.inr ⟨old, List.mem_cons_of_mem _ hold, heq⟩⟩

/-! ## Merging -/

/-- The value of an upper layer over that of a lower one, either of which may be missing. -/
def overlaid : Option Value → Option Value → Option Value
  | some upper, some lower => some (laidOver upper lower)
  | some upper, none => some upper
  | none, lower => lower

@[simp] lemma overlaid_none {found : Option Value} : overlaid found none = found := by
  cases found <;> rfl

/-- A text is found in merged entries where it is found in both layers. -/
lemma lookup_mergeEntries (h : (textKeys upper).Nodup) :
    lookup name (mergeEntries lower upper) = overlaid (lookup name upper) (lookup name lower) := by
  induction upper generalizing lower with
  | nil => rfl
  | cons entry rest ih =>
    obtain ⟨key, value⟩ := entry
    rw [mergeEntries]
    rcases text_or key with ⟨m, rfl⟩ | hother
    · rw [textKeys_cons_text, List.nodup_cons] at h
      rw [ih h.2, lookup_put_text, lookup_cons, find?_text]
      by_cases hm : m = name
      · subst hm
        -- the entry is the only one under its key, so the rest does not touch it
        rw [if_pos rfl, if_pos rfl, lookup_eq_none_iff.2 h.1]
        cases lookup m lower <;> rfl
      · rw [if_neg hm, if_neg (by simpa using hm)]
    · rw [textKeys_cons_other hother] at h
      rw [ih h, lookup_put_other hother, lookup_cons, if_neg (hother name)]

lemma nodup_textKeys_mergeEntries (h : (textKeys lower).Nodup) :
    (textKeys (mergeEntries lower upper)).Nodup := by
  induction upper generalizing lower with
  | nil => exact h
  | cons entry rest ih =>
    obtain ⟨key, value⟩ := entry
    rw [mergeEntries]
    exact ih (nodup_textKeys_put h)

/-- What is found is what a layer says, or a map.  A map may have been merged with something else,
but no single setting is a map. -/
def Fits (said found : Option Value) : Prop :=
  found = said ∨ ∃ entries, found = some (.map entries)

lemma Fits.self (said : Option Value) : Fits said said := Or.inl rfl

/-- Of two layers the upper one is found, and the lower one where the upper one is silent. -/
lemma Fits.overlaid {said found said' found' : Option Value} (hupper : Fits said found)
    (hlower : Fits said' found') : Fits (said.or said') (overlaid found found') := by
  -- a map in the upper layer is found whatever lies below, perhaps with more entries
  have hmap : ∀ entries, Fits (said.or said') (Value.overlaid (some (.map entries)) found') := by
    intro entries
    cases found' with
    | none => exact Or.inr ⟨entries, rfl⟩
    | some lower =>
      cases lower <;> exact Or.inr ⟨_, rfl⟩
  rcases hupper with rfl | ⟨entries, rfl⟩
  · cases found with
    | none => exact hlower
    | some upper =>
      cases upper with
      | map entries => exact hmap entries
      | _ => cases found' <;> exact Or.inl rfl
  · exact hmap entries

/-! ## Sections -/

/-- The value under a name in what may be a map. -/
def under (name : String) : Option Value → Option Value
  | some (.map inner) => lookup name inner
  | _ => none

/-- The value under a name in a section. -/
def settingIn (entries : List (Value × Value)) (part name : String) : Option Value :=
  under name (lookup part entries)

/-- Entries that give each name once, also in the section `part` if they give it, which is a map. -/
structure IsLayer (part : String) (entries : List (Value × Value)) : Prop where
  nodup : (textKeys entries).Nodup
  section_eq : ∀ v, lookup part entries = some v → ∃ inner, v = .map inner ∧ (textKeys inner).Nodup

variable {part : String}

/-- Merged layers are a layer, in which a name is found where it is found in both. -/
lemma IsLayer.merge (hlower : IsLayer part lower) (hupper : IsLayer part upper) :
    IsLayer part (mergeEntries lower upper) ∧
      ∀ name, settingIn (mergeEntries lower upper) part name =
        overlaid (settingIn upper part name) (settingIn lower part name) := by
  have hlookup : lookup part (mergeEntries lower upper) =
      overlaid (lookup part upper) (lookup part lower) := lookup_mergeEntries hupper.nodup
  have hnodup : (textKeys (mergeEntries lower upper)).Nodup :=
    nodup_textKeys_mergeEntries hlower.nodup
  simp only [settingIn, hlookup]
  -- if both layers give the section it is merged name by name, or else it is that of one of them
  cases hup : lookup part upper with
  | none =>
    refine ⟨⟨hnodup, fun v hv => ?_⟩, fun _ => rfl⟩
    rw [hlookup, hup] at hv
    exact hlower.section_eq v hv
  | some u =>
    obtain ⟨inner, rfl, hinner⟩ := hupper.section_eq u hup
    cases hlow : lookup part lower with
    | none =>
      refine ⟨⟨hnodup, fun v hv => ?_⟩, fun name => ?_⟩
      · rw [hlookup, hup, hlow] at hv
        cases hv
        exact ⟨inner, rfl, hinner⟩
      · exact overlaid_none.symm
    | some l =>
      obtain ⟨below, rfl, hbelow⟩ := hlower.section_eq l hlow
      refine ⟨⟨hnodup, fun v hv => ?_⟩, fun name => ?_⟩
      · rw [hlookup, hup, hlow] at hv
        cases hv
        exact ⟨_, rfl, nodup_textKeys_mergeEntries hbelow⟩
      · exact lookup_mergeEntries hinner

end TreeDiff.Value
