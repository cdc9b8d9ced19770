/-
# What can be relied on when a console reads markup

Console markup hides tags and the backslashes before brackets.  A console may do more with a text:
it puts symbols in the place of names between colons, and it drops control characters.  What it is
relied on for is little: a text with nothing of all this is shown as it is, a text with something
that markup hides is not, a style that is opened and closed around a word is not shown, and a tag
that is closed when none is open makes a text unreadable.

The usual console keeps to this.  What it shows is never longer than what is written, and it is what
is written only if there is nothing to hide: no tag, and no backslash right before a bracket.
-/
import Mathlib.Data.List.TakeWhile
import Mathlib.Tactic.Lemma
import TreeDiff.Console.Layout

namespace TreeDiff.Markup

/-! ## Tags -/

/-- Whether a text in brackets is a tag. -/
def IsTag : List Char → Prop
  | [] => False
  | c :: inside => startsTag c = true ∧ ∀ x ∈ inside, x ≠ '[' ∧ x ≠ ']'

/-- A text without anything that markup hides. -/
structure IsVerbatim (text : List Char) : Prop where
  no_tag : ∀ before content after,
    text = before ++ '[' :: (content ++ ']' :: after) → ¬IsTag content
  no_escape : ∀ before after, text ≠ before ++ '\\' :: '[' :: after

/-- A text that has nothing else to replace or to drop either. -/
structure IsPlain (text : List Char) : Prop extends IsVerbatim text where
  no_colon : ':' ∉ text
  no_control : ∀ c ∈ text, Column.isDropped c = false

/-- Whether a character means itself wherever it stands. -/
def isOrdinary (c : Char) : Bool := c ≠ '[' && c ≠ '\\' && c ≠ ':' && !Column.isDropped c

/-- A text that begins to close a tag before any is opened: its first bracket stands at the
beginning of a closing tag, and no backslash before it makes it text. -/
def ClosesFirst (text : List Char) : Prop :=
  ∃ before name after, text = before ++ '[' :: '/' :: (name ++ ']' :: after) ∧ '[' ∉ before ∧
    before.getLast? ≠ some '\\' ∧ ∀ x ∈ name, x ≠ '[' ∧ x ≠ ']'

section

variable {text rest content after : List Char} {c : Char}

/-- Text up to a bracket. -/
lemma takeWhile_inside {inside : List Char} (h : ∀ x ∈ inside, x ≠ '[' ∧ x ≠ ']') :
    (inside ++ ']' :: after).takeWhile (fun x => x ≠ '[' && x ≠ ']') = inside ∧
      (inside ++ ']' :: after).dropWhile (fun x => x ≠ '[' && x ≠ ']') = ']' :: after := by
  have hall : ∀ x ∈ inside, (x ≠ '[' && x ≠ ']') = true := fun x hx => by simpa using h x hx
  rw [List.takeWhile_append_of_pos hall, List.dropWhile_append_of_pos hall]
  simp

lemma tag?_eq_some_iff :
    tag? text = some (content, after) ↔ IsTag content ∧ text = content ++ ']' :: after := by
  constructor
  · intro h
    cases text with
    | nil => simp [tag?] at h
    | cons c rest =>
      simp only [tag?] at h
      split at h
      · rename_i hc
        split at h
        · rename_i after' hdrop
          simp only [Option.some.injEq, Prod.mk.injEq] at h
          obtain ⟨rfl, rfl⟩ := h
          refine ⟨⟨hc, fun x hx => by simpa using List.mem_takeWhile_imp hx⟩, ?_⟩
          rw [List.cons_append, ← hdrop, List.takeWhile_append_dropWhile]
        · simp at h
      · simp at h
  · rintro ⟨htag, rfl⟩
    cases content with
    | nil => exact htag.elim
    | cons c inside =>
      obtain ⟨hc, hinside⟩ := htag
      obtain ⟨htake, hdrop⟩ := @takeWhile_inside after inside hinside
      simp only [List.cons_append, tag?, hc, if_true, htake, hdrop]

lemma tag?_eq_none_iff : tag? text = none ↔
    ∀ content after, text = content ++ ']' :: after → ¬IsTag content := by
  rw [Option.eq_none_iff_forall_ne_some]
  simp only [ne_eq, Prod.forall, tag?_eq_some_iff, not_and]
  exact forall₂_congr fun _ _ => ⟨fun h heq htag => h htag heq, fun h htag heq => h heq htag⟩

lemma isVerbatim_nil : IsVerbatim [] :=
  ⟨fun before _ _ h => by simp at h, fun before _ h => by simp at h⟩

lemma isVerbatim_cons : IsVerbatim (c :: rest) ↔
    (c = '[' → tag? rest = none) ∧ (c = '\\' → rest.head? ≠ some '[') ∧ IsVerbatim rest := by
  constructor
  · rintro ⟨hno, hescape⟩
    refine ⟨?_, ?_, fun before content after heq => ?_, fun before after heq => ?_⟩
    · rintro rfl
      exact tag?_eq_none_iff.2 fun content after heq => hno [] content after (by rw [heq]; rfl)
    · rintro rfl hhead
      obtain ⟨after, rfl⟩ := List.head?_eq_some_iff.1 hhead
      exact hescape [] after rfl
    · exact hno (c :: before) content after (by rw [heq]; rfl)
    · exact hescape (c :: before) after (by rw [heq]; rfl)
  · rintro ⟨htag, hslash, hrest⟩
    constructor
    · intro before content after heq
      cases before with
      | nil =>
        rw [List.nil_append, List.cons.injEq] at heq
        exact tag?_eq_none_iff.1 (htag heq.1) content after heq.2
      | cons b before =>
        rw [List.cons_append, List.cons.injEq] at heq
        exact hrest.no_tag before content after heq.2
    · intro before after heq
      cases before with
      | nil =>
        rw [List.nil_append, List.cons.injEq] at heq
        exact hslash heq.1 (by rw [heq.2]; rfl)
      | cons b before =>
        rw [List.cons_append, List.cons.injEq] at heq
        exact hrest.no_escape before after heq.2

/-- Without brackets there is nothing to hide. -/
lemma isVerbatim_of_not_mem (h : '[' ∉ text) : IsVerbatim text where
  no_tag before content after heq := absurd (by simp [heq]) h
  no_escape before after heq := h (by simp [heq])

lemma isPlain_of_ordinary (h : ∀ c ∈ text, isOrdinary c = true) : IsPlain text := by
  have hparts : ∀ c ∈ text, c ≠ '[' ∧ c ≠ '\\' ∧ c ≠ ':' ∧ Column.isDropped c = false :=
    fun c hc => by simpa [isOrdinary, and_assoc] using h c hc
  exact ⟨isVerbatim_of_not_mem fun hin => (hparts _ hin).1 rfl, fun hin => (hparts _ hin).2.2.1 rfl,
    fun c hc => (hparts c hc).2.2.2⟩

end

/-! ## The parts of a text -/

section

variable {text rest content after chars more : List Char} {slashes : Nat} {c : Char}
  {opened : List String} {ps : List Part}

lemma parts_backslash : parts slashes ('\\' :: rest) = parts (slashes + 1) rest := by
  rw [parts]
  rfl

lemma parts_of_tag (h : tag? rest = some (content, after)) : parts slashes ('[' :: rest) =
    if slashes % 2 = 1 then
      prepend (List.replicate (slashes / 2) '\\' ++ '[' :: content ++ [']']) (parts 0 after)
    else prepend (List.replicate (slashes / 2) '\\') (.ofTag content :: parts 0 after) := by
  rw [parts, if_neg (by decide), if_pos rfl]
  split
  · rename_i found after' hfound
    rw [h] at hfound
    cases hfound
    simp [escapes]
  · rename_i hnone
    rw [h] at hnone
    cases hnone

lemma parts_of_bracket (h : tag? rest = none) : parts slashes ('[' :: rest) =
    prepend (List.replicate (slashes - 1) '\\' ++ ['[']) (parts 0 rest) := by
  rw [parts, if_neg (by decide), if_pos rfl]
  split
  · rename_i found after' hfound
    rw [h] at hfound
    cases hfound
  · rfl

lemma parts_of_ne (hslash : c ≠ '\\') (hbracket : c ≠ '[') : parts slashes (c :: rest) =
    prepend (List.replicate slashes '\\' ++ [c]) (parts 0 rest) := by
  rw [parts, if_neg hslash, if_neg hbracket]

/-- Induction along the reading of a text. -/
@[elab_as_elim]
theorem induction_parts {motive : Nat → List Char → Prop}
    (nil : ∀ slashes, motive slashes [])
    (backslash : ∀ slashes rest, motive (slashes + 1) rest → motive slashes ('\\' :: rest))
    (tag : ∀ slashes rest content after, tag? rest = some (content, after) → motive 0 after →
      motive slashes ('[' :: rest))
    (bracket : ∀ slashes rest, tag? rest = none → motive 0 rest → motive slashes ('[' :: rest))
    (char : ∀ slashes c rest, c ≠ '\\' → c ≠ '[' → motive 0 rest → motive slashes (c :: rest))
    (slashes : Nat) (text : List Char) : motive slashes text := by
  generalize hn : text.length = n
  induction n using Nat.strongRecOn generalizing slashes text with
  | ind n ih =>
    cases text with
    | nil => exact nil slashes
    | cons c rest =>
      have hrest : ∀ slashes, motive slashes rest := fun slashes =>
        ih rest.length (by rw [← hn, List.length_cons]; exact Nat.lt_succ_self _) slashes rest rfl
      by_cases hslash : c = '\\'
      · exact hslash ▸ backslash slashes rest (hrest _)
      · by_cases hbracket : c = '['
        · subst hbracket
          cases htag : tag? rest with
          | none => exact bracket slashes rest htag (hrest 0)
          | some found =>
            obtain ⟨content, after⟩ := found
            refine tag slashes rest content after htag (ih after.length ?_ 0 after rfl)
            rw [← hn, List.length_cons]
            exact Nat.lt_succ_of_lt (length_of_tag? htag)
        · exact char slashes c rest hslash hbracket (hrest 0)

lemma prepend_append (chars more : List Char) (ps : List Part) :
    prepend (chars ++ more) ps = prepend chars (prepend more ps) := by
  cases chars with
  | nil => rfl
  | cons c chars =>
    cases more with
    | nil => simp [prepend]
    | cons d more =>
      match ps with
      | [] => simp [prepend]
      | .text _ :: _ => simp [prepend]
      | .opening _ :: _ => simp [prepend]
      | .closing _ :: _ => simp [prepend]

lemma shown_prepend : shown opened (prepend chars ps) = (shown opened ps).map (chars ++ ·) := by
  cases chars with
  | nil => simp [prepend]
  | cons c chars =>
    match ps with
    | [] => simp [prepend, shown]
    | .text _ :: _ => simp [prepend, shown, Function.comp_def]
    | .opening _ :: _ => simp [prepend, shown]
    | .closing _ :: _ => simp [prepend, shown]

/-- A tag shows nothing. -/
lemma exists_shown_of_ofTag (h : shown opened (.ofTag content :: ps) = some chars) :
    ∃ others, shown others ps = some chars := by
  rw [Part.ofTag] at h
  split at h
  · rw [shown] at h
    split at h
    · cases h
    · exact ⟨_, h⟩
  · exact ⟨_, h⟩

/-- Backslashes are hidden only right before a bracket. -/
lemma isVerbatim_replicate : IsVerbatim (List.replicate slashes '\\' ++ text) ↔
    (slashes ≠ 0 → text.head? ≠ some '[') ∧ IsVerbatim text := by
  induction slashes with
  | zero => simp
  | succ slashes ih =>
    rw [List.replicate_succ, List.cons_append, isVerbatim_cons, ih]
    cases slashes with
    | zero => simp
    | succ slashes => simp [List.replicate_succ]

/-- The parts of a text without anything to hide are that text. -/
lemma parts_of_isVerbatim (h : IsVerbatim (List.replicate slashes '\\' ++ text)) :
    parts slashes text = prepend (List.replicate slashes '\\' ++ text) [] := by
  induction slashes, text using induction_parts with
  | nil slashes => rw [parts, List.append_nil]
  | backslash slashes rest ih =>
    rw [List.append_cons, ← List.replicate_succ'] at h ⊢
    rw [parts_backslash, ih h]
  | tag slashes rest content after htag =>
    have hnone := (isVerbatim_cons.1 (isVerbatim_replicate.1 h).2).1 rfl
    rw [htag] at hnone
    cases hnone
  | bracket slashes rest htag ih =>
    obtain ⟨hslashes, hrest⟩ := isVerbatim_replicate.1 h
    obtain rfl : slashes = 0 := by_contra fun hne => hslashes hne rfl
    rw [parts_of_bracket htag, ih (isVerbatim_cons.1 hrest).2.2, ← prepend_append]
    rfl
  | char slashes c rest hslash hbracket ih =>
    have hrest := (isVerbatim_cons.1 (isVerbatim_replicate.1 h).2).2.2
    rw [parts_of_ne hslash hbracket, ih hrest, ← prepend_append, List.append_assoc]
    rfl

/-- What is shown is no longer than what is written, and shorter if there is anything to hide. -/
lemma length_of_shown_parts (h : shown opened (parts slashes text) = some chars) :
    chars.length ≤ slashes + text.length ∧
      (chars.length = slashes + text.length →
        IsVerbatim (List.replicate slashes '\\' ++ text)) := by
  induction slashes, text using induction_parts generalizing opened chars with
  | nil slashes =>
    rw [parts, shown_prepend] at h
    simp only [shown, Option.map_some, Option.some.injEq, List.append_nil] at h
    subst h
    rw [isVerbatim_replicate]
    exact ⟨by simp, fun _ => ⟨by simp, isVerbatim_nil⟩⟩
  | backslash slashes rest ih =>
    rw [parts_backslash] at h
    obtain ⟨hle, heq⟩ := ih h
    rw [List.append_cons, ← List.replicate_succ', List.length_cons]
    exact ⟨by omega, fun hlength => heq (by omega)⟩
  | tag slashes rest content after htag ih =>
    obtain ⟨-, rfl⟩ := tag?_eq_some_iff.1 htag
    rw [parts_of_tag htag] at h
    -- a tag is hidden, and of the backslashes that make it text at least one
    have hlt : chars.length < slashes + ('[' :: (content ++ ']' :: after)).length := by
      split at h
      · rw [shown_prepend, Option.map_eq_some_iff] at h
        obtain ⟨more, hmore, rfl⟩ := h
        have hle := (ih hmore).1
        simp
        omega
      · rw [shown_prepend, Option.map_eq_some_iff] at h
        obtain ⟨more, hmore, rfl⟩ := h
        obtain ⟨opened, hafter⟩ := exists_shown_of_ofTag hmore
        have hle := (ih hafter).1
        simp
        omega
    exact ⟨hlt.le, fun heq => absurd heq hlt.ne⟩
  | bracket slashes rest htag ih =>
    rw [parts_of_bracket htag, shown_prepend, Option.map_eq_some_iff] at h
    obtain ⟨more, hmore, rfl⟩ := h
    obtain ⟨hle, heq⟩ := ih hmore
    simp only [List.length_append, List.length_replicate, List.length_cons, List.length_nil]
    refine ⟨by omega, fun hlength => isVerbatim_replicate.2 ⟨fun hne => by omega, ?_⟩⟩
    exact isVerbatim_cons.2 ⟨fun _ => htag, fun h => absurd h (by decide), heq (by omega)⟩
  | char slashes c rest hslash hbracket ih =>
    rw [parts_of_ne hslash hbracket, shown_prepend, Option.map_eq_some_iff] at h
    obtain ⟨more, hmore, rfl⟩ := h
    obtain ⟨hle, heq⟩ := ih hmore
    simp only [List.length_append, List.length_replicate, List.length_cons, List.length_nil]
    refine ⟨by omega, fun hlength => isVerbatim_replicate.2 ⟨by simpa using fun _ => hbracket, ?_⟩⟩
    exact isVerbatim_cons.2
      ⟨fun h => absurd h hbracket, fun h => absurd h hslash, heq (by omega)⟩

lemma length_le_of_plain? (h : plain? text = some chars) : chars.length ≤ text.length := by
  rw [plain?] at h
  split at h
  · simpa using (length_of_shown_parts h).1
  · obtain rfl := Option.some.inj h
    exact le_rfl

/-- **A text is shown as it is written if and only if it has nothing that markup hides.** -/
theorem plain?_eq_some_self_iff : plain? text = some text ↔ IsVerbatim text := by
  rw [plain?]
  split
  · constructor
    · intro h
      exact (length_of_shown_parts h).2 (Nat.zero_add _).symm
    · intro h
      have hparts : parts 0 text = prepend text [] := parts_of_isVerbatim h
      rw [hparts, shown_prepend, shown, Option.map_some, List.append_nil]
  · rename_i hnone
    exact iff_of_true rfl (isVerbatim_of_not_mem (by simpa using hnone))

end

/-! ## Tags that are closed without being open -/

section

variable {text before rest : List Char} {slashes : Nat}

/-- Up to a bracket with no backslash before it, a text is read as it is. -/
lemma parts_append_of_getLast? (hbracket : '[' ∉ before) (hlast : before.getLast? ≠ some '\\') :
    parts slashes (before ++ '[' :: rest) =
      if before = [] then parts slashes ('[' :: rest)
      else prepend (List.replicate slashes '\\' ++ before) (parts 0 ('[' :: rest)) := by
  induction before generalizing slashes with
  | nil => rfl
  | cons c before ih =>
    rw [List.mem_cons, not_or] at hbracket
    rw [if_neg (List.cons_ne_nil _ _), List.cons_append]
    cases before with
    | nil =>
      have hslash : c ≠ '\\' := fun h => hlast (by rw [h]; rfl)
      rw [parts_of_ne hslash (Ne.symm hbracket.1)]
      rfl
    | cons d before =>
      rw [List.getLast?_cons_cons] at hlast
      have hrest := fun slashes => @ih slashes hbracket.2 hlast
      simp only [if_neg (List.cons_ne_nil d before)] at hrest
      by_cases hslash : c = '\\'
      · rw [hslash, parts_backslash, hrest, List.replicate_succ', List.append_assoc,
          List.singleton_append]
      · rw [parts_of_ne hslash (Ne.symm hbracket.1), hrest, ← prepend_append, List.append_assoc]
        rfl

/-- **A text that closes a tag before any is opened cannot be read.** -/
theorem plain?_of_closesFirst (h : ClosesFirst text) : plain? text = none := by
  obtain ⟨before, name, after, rfl, hbracket, hlast, hname⟩ := h
  have htag : tag? ('/' :: (name ++ ']' :: after)) = some ('/' :: name, after) :=
    tag?_eq_some_iff.2 ⟨⟨by decide, hname⟩, rfl⟩
  have hclosing : Part.ofTag ('/' :: name) = .closing (name.takeWhile (· ≠ '=')) := by
    rw [Part.ofTag, List.takeWhile_cons_of_pos (by decide)]
    rfl
  have hclose : ∀ name, close name [] = none := fun name => by
    by_cases h : name = "" <;> simp [close, h]
  have hrest : shown [] (parts 0 ('[' :: '/' :: (name ++ ']' :: after))) = none := by
    rw [parts_of_tag htag, if_neg (by decide), hclosing, shown_prepend, shown, hclose]
    rfl
  rw [plain?, if_pos (by simp), parts_append_of_getLast? hbracket hlast]
  split
  · exact hrest
  · rw [shown_prepend, hrest]
    rfl

end

/-! ## Text between the tags of a style -/

section

variable {text rest style : List Char}

/-- Plain characters are read one by one. -/
lemma parts_append_of_plain (hbracket : '[' ∉ text) (hslash : '\\' ∉ text) :
    parts 0 (text ++ rest) = prepend text (parts 0 rest) := by
  induction text with
  | nil => rfl
  | cons c text ih =>
    rw [List.mem_cons, not_or] at hbracket hslash
    rw [List.cons_append, parts_of_ne (Ne.symm hslash.1) (Ne.symm hbracket.1),
      ih hbracket.2 hslash.2, ← prepend_append]
    rfl

/-- **Text between the two tags of a style is shown without them.** -/
theorem plain?_styled (hne : style ≠ []) (hstyle : ∀ x ∈ style, 'a' ≤ x ∧ x ≤ 'z')
    (hbracket : '[' ∉ text) (hslash : '\\' ∉ text) :
    plain? ('[' :: (style ++ ']' :: (text ++ '[' :: ('/' :: style ++ [']'])))) = some text := by
  have hinside : ∀ x ∈ style, x ≠ '[' ∧ x ≠ ']' := fun x hx => by
    have hletter := (hstyle x hx).1
    constructor <;> rintro rfl <;> exact absurd hletter (by decide)
  have hopening : IsTag style := by
    obtain ⟨c, inside, rfl⟩ := List.exists_cons_of_ne_nil hne
    have hc := hstyle c List.mem_cons_self
    exact ⟨by simp [startsTag, hc], fun x hx => hinside x (List.mem_cons_of_mem _ hx)⟩
  have hclosing : IsTag ('/' :: style) := ⟨by decide, hinside⟩
  have htake : style.takeWhile (· ≠ '=') = style := List.takeWhile_eq_self_iff.2 fun x hx => by
    have hletter := (hstyle x hx).1
    simp only [decide_eq_true_eq]
    rintro rfl
    exact absurd hletter (by decide)
  have hfirst : Part.ofTag style = .opening style := by
    obtain ⟨c, inside, rfl⟩ := List.exists_cons_of_ne_nil hne
    have hc : c ≠ '/' := by
      rintro rfl
      exact absurd (hstyle '/' List.mem_cons_self).1 (by decide)
    rw [Part.ofTag, htake]
    simp [hc]
  have hlast : Part.ofTag ('/' :: style) = .closing style := by
    rw [Part.ofTag, List.takeWhile_cons_of_pos (by decide), htake]
    rfl
  have hend : close (styleName style) [styleName style] = some [] := by
    by_cases h : styleName style = "" <;> simp [close, h]
  rw [plain?, if_pos (by simp), parts_of_tag (tag?_eq_some_iff.2 ⟨hopening, rfl⟩),
    parts_append_of_plain hbracket hslash,
    parts_of_tag (tag?_eq_some_iff.2 ⟨hclosing, rfl⟩), hfirst, hlast, parts]
  change shown [] (.opening style :: prepend text [.closing style]) = some text
  rw [shown, shown_prepend, shown, hend]
  simp [shown]

end

end TreeDiff.Markup

namespace TreeDiff.Console

open Markup (IsVerbatim IsPlain ClosesFirst)

/-- What a console can be relied on for. -/
class Lawful [Console] : Prop where
  /-- A text with nothing to hide, to replace or to drop is shown as it is. -/
  plain : ∀ text : String, IsPlain text.toList → read text = some text
  /-- Tags are not shown, nor are backslashes before brackets. -/
  hidden : ∀ text : String, read text = some text → IsVerbatim text.toList
  /-- A style that is opened and closed around a word is not shown. -/
  styled : ∀ style text : String, style ≠ "" → (∀ c ∈ style.toList, 'a' ≤ c ∧ c ≤ 'z') →
    (∀ c ∈ text.toList, Markup.isOrdinary c = true) →
      read ("[" ++ style ++ "]" ++ text ++ "[/" ++ style ++ "]") = some text
  /-- A tag cannot be closed when none is open. -/
  closing : ∀ text : String, ClosesFirst text.toList → read text = none

/-- Nothing is dropped from what is shown as it is. -/
lemma filter_eq_self_of_length {chars text : List Char} (hle : chars.length ≤ text.length)
    (h : (chars.filter fun c => !Column.isDropped c) = text) : chars = text := by
  have hsub : (chars.filter fun c => !Column.isDropped c).Sublist chars := List.filter_sublist
  have hlength : (chars.filter fun c => !Column.isDropped c).length = chars.length :=
    hsub.length_le.antisymm (h ▸ hle)
  rw [← hsub.eq_of_length hlength, h]

lemma filter_eq_self_of_no_control {text : List Char}
    (h : ∀ c ∈ text, Column.isDropped c = false) :
    (text.filter fun c => !Column.isDropped c) = text :=
  List.filter_eq_self.2 fun c hc => by rw [h c hc]; rfl

/-- **The usual console can be relied on.** -/
instance : Lawful where
  plain text h := by
    simp only [read, Markup.plain?_eq_some_self_iff.2 h.toIsVerbatim, Option.map_some,
      filter_eq_self_of_no_control h.no_control, String.ofList_toList]
  hidden text h := by
    obtain ⟨chars, hchars, hshown⟩ := Option.map_eq_some_iff.1 h
    have hfilter := congrArg String.toList hshown
    rw [String.toList_ofList] at hfilter
    rw [← Markup.plain?_eq_some_self_iff, hchars,
      filter_eq_self_of_length (Markup.length_le_of_plain? hchars) hfilter]
  styled style text hne hstyle htext := by
    have hplain := Markup.isPlain_of_ordinary htext
    have hword : ∀ c ∈ text.toList, c ≠ '[' ∧ c ≠ '\\' := fun c hc => by
      have h := htext c hc
      simp only [Markup.isOrdinary, Bool.and_eq_true, decide_eq_true_eq] at h
      exact ⟨h.1.1.1, h.1.1.2⟩
    have hshown := Markup.plain?_styled (by simpa using hne) hstyle
      (fun h => (hword _ h).1 rfl) fun h => (hword _ h).2 rfl
    have hcell : ("[" ++ style ++ "]" ++ text ++ "[/" ++ style ++ "]").toList =
        '[' :: (style.toList ++ ']' :: (text.toList ++ '[' :: ('/' :: style.toList ++ [']']))) := by
      simp
    simp only [read, hcell, hshown, Option.map_some,
      filter_eq_self_of_no_control hplain.no_control, String.ofList_toList]
  closing text h := by simp only [read, Markup.plain?_of_closesFirst h, Option.map_none]

end TreeDiff.Console
