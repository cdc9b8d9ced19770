/-
# Paths as texts

A path that has been read from a text is written so that it is read again: its names are not empty,
are no single dots, and have no slashes in them.
-/
import TreeDiff.Files.Path
import Mathlib.Tactic.Lemma

namespace TreeDiff.Path

variable {p q : Path} {part chars : List Char} {parts : List (List Char)} {text : String}

/-! ## Parts between slashes -/

lemma splitSlashes_slash (chars : List Char) :
    splitSlashes ('/' :: chars) = [] :: splitSlashes chars := by
  simp [splitSlashes]

lemma splitSlashes_of_notMem (h : '/' ∉ part) : splitSlashes part = [part] := by
  induction part with
  | nil => rfl
  | cons c rest ih =>
    have hc := List.ne_of_not_mem_cons h
    have hrest := List.not_mem_of_not_mem_cons h
    rw [splitSlashes, if_neg (Ne.symm hc), ih hrest]

lemma splitSlashes_append (h : '/' ∉ part) (chars : List Char) :
    splitSlashes (part ++ '/' :: chars) = part :: splitSlashes chars := by
  induction part with
  | nil => exact splitSlashes_slash chars
  | cons c rest ih =>
    have hc := List.ne_of_not_mem_cons h
    have hrest := List.not_mem_of_not_mem_cons h
    rw [List.cons_append, splitSlashes, if_neg (Ne.symm hc), ih hrest]

/-- Parts with slashes between them are told apart again. -/
lemma splitSlashes_intercalate (hne : parts ≠ []) (h : ∀ part ∈ parts, '/' ∉ part) :
    splitSlashes (['/'].intercalate parts) = parts := by
  induction parts with
  | nil => exact absurd rfl hne
  | cons part rest ih =>
    have hpart := h part List.mem_cons_self
    cases rest with
    | nil =>
      rw [List.intercalate_singleton]
      exact splitSlashes_of_notMem hpart
    | cons next rest =>
      have hrest := ih (List.cons_ne_nil _ _) fun q hq => h q (List.mem_cons_of_mem _ hq)
      rw [List.intercalate_cons_cons, List.append_assoc, List.singleton_append,
        splitSlashes_append hpart, hrest]

lemma notMem_of_mem_splitSlashes (h : part ∈ splitSlashes chars) : '/' ∉ part := by
  induction chars generalizing part with
  | nil =>
    rw [List.mem_singleton.1 h]
    exact List.not_mem_nil
  | cons c rest ih =>
    rw [splitSlashes] at h
    split at h
    · rcases List.mem_cons.1 h with rfl | h
      · exact List.not_mem_nil
      · exact ih h
    · next hc =>
      split at h
      · rw [List.mem_singleton.1 h]
        exact fun hmem => hc (List.mem_singleton.1 hmem).symm
      · next hsplit =>
        rcases List.mem_cons.1 h with rfl | h
        · exact List.not_mem_cons_of_ne_of_not_mem (Ne.symm hc) (ih (hsplit ▸ List.mem_cons_self))
        · exact ih (hsplit ▸ List.mem_cons_of_mem _ h)

/-! ## Plain paths -/

/-- Whether a name is one that can be read from a text. -/
structure IsPlainName (name : String) : Prop where
  isName : isName name.toList = true
  notMem : '/' ∉ name.toList

/-- A path whose names can be read from a text. -/
def IsPlain (p : Path) : Prop := ∀ name ∈ p.names, IsPlainName name

lemma isPlain_ofText (text : String) : (ofText text).IsPlain := by
  intro name hname
  obtain ⟨part, hpart, rfl⟩ := List.mem_map.1 hname
  obtain ⟨hsplit, hisName⟩ := List.mem_filter.1 hpart
  refine ⟨?_, ?_⟩ <;> rw [String.toList_ofList]
  · exact hisName
  · exact notMem_of_mem_splitSlashes hsplit

lemma filter_isName_map_toList (h : p.IsPlain) :
    ((p.names.map String.toList).filter isName).map String.ofList = p.names := by
  have hfilter : (p.names.map String.toList).filter isName = p.names.map String.toList := by
    refine List.filter_eq_self.2 fun part hpart => ?_
    obtain ⟨name, hname, rfl⟩ := List.mem_map.1 hpart
    exact (h name hname).isName
  rw [hfilter, List.map_map]
  exact (List.map_congr_left fun name _ => String.ofList_toList).trans (List.map_id _)

/-- The names of a plain path, written with slashes between them, are read again. -/
lemma filter_splitSlashes (h : p.IsPlain) :
    ((splitSlashes (['/'].intercalate (p.names.map String.toList))).filter isName).map
      String.ofList = p.names := by
  by_cases hnil : p.names = []
  · rw [hnil]
    rfl
  · rw [splitSlashes_intercalate (by simpa using hnil) fun part hpart => ?_,
      filter_isName_map_toList h]
    obtain ⟨name, hname, rfl⟩ := List.mem_map.1 hpart
    exact (h name hname).notMem

/-- Names with slashes between them do not start with a slash. -/
lemma takeWhile_intercalate (h : p.IsPlain) :
    (['/'].intercalate (p.names.map String.toList)).takeWhile (· = '/') = [] := by
  cases hnames : p.names with
  | nil => rfl
  | cons name rest =>
    have hname := h name (hnames ▸ List.mem_cons_self)
    obtain ⟨c, cs, hcs⟩ : ∃ c cs, name.toList = c :: cs := by
      cases hlist : name.toList with
      | nil => simpa [isName, hlist] using hname.isName
      | cons c cs => exact ⟨c, cs, rfl⟩
    have hc : c ≠ '/' := by
      rintro rfl
      exact hname.notMem (hcs ▸ List.mem_cons_self)
    cases rest <;> simp [hcs, hc, List.intercalate]

/-- A plain path is read from its own text. -/
lemma ofText_text (h : p.IsPlain) : ofText p.text = p := by
  have hnames := filter_splitSlashes h
  have hslashes := takeWhile_intercalate h
  have hbody : ("/".intercalate p.names).toList = ['/'].intercalate (p.names.map String.toList) :=
    String.toList_intercalate
  by_cases hdot : p.anchor = .here ∧ p.names = []
  · obtain ⟨anchor, names⟩ := p
    obtain ⟨rfl, rfl⟩ := hdot
    rfl
  · rw [text, if_neg hdot, ofText, String.toList_append, hbody]
    -- an anchor is written as slashes, and the parts before them are empty
    have hempty : ∀ parts, ([] :: parts).filter isName = parts.filter isName := fun _ => rfl
    cases hanchor : p.anchor with
    | here => simp [Anchor.text, hslashes, hnames, anchorOf, ← hanchor]
    | root =>
      simp [Anchor.text, hslashes, hnames, anchorOf, ← hanchor, splitSlashes_slash, hempty]
    | doubleRoot =>
      simp [Anchor.text, hslashes, hnames, anchorOf, ← hanchor, splitSlashes_slash, hempty]

/-! ## Homes -/

variable {homes : Homes}

/-- A home in the place of its tilde leaves the path plain. -/
lemma IsPlain.expandHome (h : p.IsPlain) (hq : p.expandHome homes = .ok q) : q.IsPlain := by
  rw [Path.expandHome] at hq
  split at hq
  · next first rest hnames =>
    split at hq
    · split at hq
      · cases hq
      · next home hhome =>
        split at hq
        · cases hq
        · cases hq
          intro name hname
          rcases List.mem_append.1 hname with hname | hname
          · exact isPlain_ofText home name hname
          · exact h name (hnames ▸ List.mem_cons_of_mem _ hname)
    · cases hq
      exact h
  · cases hq
    exact h

/-- A path from the root has no tilde to replace. -/
lemma expandHome_of_isAbsolute (h : p.isAbsolute = true) : p.expandHome homes = .ok p := by
  obtain ⟨anchor, names⟩ := p
  cases anchor with
  | here => cases h
  | root => rfl
  | doubleRoot => rfl

/-- A path from the root is not written like a path from the working directory. -/
lemma text_ne_of_isAbsolute (text : String) (hplain : p.IsPlain) (h : p.isAbsolute = true)
    (htext : (ofText text).isAbsolute = false) : p.text ≠ text := by
  rintro rfl
  rw [ofText_text hplain, h] at htext
  cases htext

end TreeDiff.Path
