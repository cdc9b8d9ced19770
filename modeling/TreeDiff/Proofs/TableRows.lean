/-
# What the table of a comparison shows

The cells of the table mix markup of the table itself, the style of the kind, with texts that come
from the sources: node types, identifiers and breadcrumbs.  These are read as markup too.  So a row
shows its change if and only if the console shows each of its texts as it is, and the table cannot
be shown at all if the console cannot read one of them.  All that is said of the console is what it
can be relied on for.
-/
import Mathlib.Data.List.Forall2
import TreeDiff.Command.Run
import TreeDiff.Proofs.Verbatim

namespace TreeDiff

open Markup (IsVerbatim IsPlain ClosesFirst)

namespace Change

/-- Whom a change is about, by the old and the new identifier. -/
inductive IsAbout : Option String → Option String → String → Prop where
  | renamed {old new : String} (h : old ≠ new) :
    IsAbout (some old) (some new) (old ++ " -> " ++ new)
  | kept (name : String) : IsAbout (some name) (some name) name
  | removed (old : String) : IsAbout (some old) none old
  | added (new : String) : IsAbout none (some new) new
  | nobody : IsAbout none none ""

/-- The texts of the sources that the row of a change holds. -/
def texts (c : Change) : List String := [c.nodeType, c.identity, c.path]

end Change

/-- Whether the cells of a row show the kind of a change, its node type, whom it is about and its
path. -/
def TableRow.Shows [Console] (row : TableRow) (c : Change) : Prop :=
  ∃ who, Change.IsAbout c.oldIdentity c.newIdentity who ∧
    row.cells.map Console.read = [some c.kind.name, some c.nodeType, some who,
      some (if c.path = "" then "(top level)" else c.path)]

section

variable {c : Change} {text : String}

lemma isAbout_iff {who : String} :
    Change.IsAbout c.oldIdentity c.newIdentity who ↔ who = c.identity := by
  rw [Change.identity]
  constructor
  · intro h
    generalize c.oldIdentity = old at h ⊢
    generalize c.newIdentity = new at h ⊢
    cases h with
    | renamed h => simp [h, toString]
    | kept name => simp
    | removed old => rfl
    | added new => rfl
    | nobody => rfl
  · rintro rfl
    cases hold : c.oldIdentity with
    | none =>
      cases hnew : c.newIdentity with
      | none => exact .nobody
      | some new => exact .added new
    | some old =>
      cases hnew : c.newIdentity with
      | none => exact .removed old
      | some new =>
        by_cases h : old = new
        · subst h
          simpa using .kept old
        · simpa [h, toString] using .renamed h

lemma shownPath_eq (c : Change) :
    c.shownPath = if c.path = "" then "(top level)" else c.path := by
  rw [Change.shownPath, Change.topLevel]
  by_cases h : c.path = "" <;> simp [h]

/-- Ordinary texts are shown as they are. -/
lemma read_of_ordinary [Console] [Console.Lawful]
    (h : ∀ c ∈ text.toList, Markup.isOrdinary c = true) :
    Console.read text = some text :=
  Console.Lawful.plain text (Markup.isPlain_of_ordinary h)

lemma ordinary_name (kind : ChangeKind) : ∀ c ∈ kind.name.toList, Markup.isOrdinary c = true :=
  List.all_eq_true.1 (by cases kind <;> decide)

/-- The style of a kind is not shown. -/
lemma read_kind [Console] [Console.Lawful] (kind : ChangeKind) :
    Console.read s!"[{kind.style}]{kind.name}[/{kind.style}]" = some kind.name := by
  have hcell : s!"[{kind.style}]{kind.name}[/{kind.style}]" =
      "[" ++ kind.style ++ "]" ++ kind.name ++ "[/" ++ kind.style ++ "]" := by
    simp [toString]
  have hletters : ∀ c ∈ kind.style.toList, 'a' ≤ c ∧ c ≤ 'z' := by
    cases kind <;> simp [ChangeKind.style]
  rw [hcell]
  refine Console.Lawful.styled kind.style kind.name ?_ hletters (ordinary_name kind)
  cases kind <;> decide

/-- The words for a path right below the root are shown as they are, and so is an empty path. -/
lemma read_shownPath_iff [Console] [Console.Lawful] :
    Console.read c.shownPath = some c.shownPath ↔ Console.read c.path = some c.path := by
  rw [shownPath_eq]
  split
  · rename_i h
    rw [h]
    exact iff_of_true (read_of_ordinary (List.all_eq_true.1 (by decide)))
      (read_of_ordinary (List.all_eq_true.1 (by decide)))
  · exact Iff.rfl

/-- **A row shows its change if and only if the console shows its texts as they are.** -/
theorem shows_row_iff [Console] [Console.Lawful] :
    c.row.Shows c ↔ ∀ text ∈ c.texts, Console.read text = some text := by
  simp only [TableRow.Shows, isAbout_iff, exists_eq_left, ← shownPath_eq, Change.row,
    List.map_cons, List.map_nil, read_kind, List.cons.injEq, true_and, and_true,
    read_shownPath_iff, Change.texts, List.forall_mem_cons, List.not_mem_nil, false_implies,
    implies_true]

end

/-! ## The whole table -/

section

variable {α β : Type} {f : α → Option β} {items : List α} {rows : List (List String)} {c : Change}
  {d : Diff}

lemma mapM_eq_none_iff : items.mapM f = none ↔ ∃ a ∈ items, f a = none := by
  induction items with
  | nil => simp
  | cons a rest ih =>
    rw [List.mapM_cons]
    simp only [List.mem_cons, exists_eq_or_imp, ← ih]
    cases f a with
    | none => simp
    | some b => cases rest.mapM f <;> simp

lemma mapM_eq_some_iff {results : List β} :
    items.mapM f = some results ↔ items.map f = results.map some := by
  induction items generalizing results with
  | nil => cases results <;> simp
  | cons a rest ih =>
    rw [List.mapM_cons, List.map_cons]
    cases results with
    | nil => cases f a <;> cases rest.mapM f <;> simp
    | cons b results =>
      rw [List.map_cons, List.cons.injEq, ← ih]
      cases f a <;> cases rest.mapM f <;> simp

/-- The cells of a table are read row by row. -/
lemma read_eq_some_iff [Console] {shown : List (List String)} :
    (rows.mapM fun row => row.mapM Console.read) = some shown ↔
      rows.map (·.map Console.read) = shown.map (·.map some) := by
  rw [mapM_eq_some_iff]
  induction rows generalizing shown with
  | nil => cases shown <;> simp
  | cons row rest ih =>
    cases shown with
    | nil => simp
    | cons cells shown =>
      simp only [List.map_cons, List.cons.injEq, mapM_eq_some_iff, ih]

/-- They cannot be read if and only if one of them cannot. -/
lemma read_eq_none_iff [Console] : (rows.mapM fun row => row.mapM Console.read) = none ↔
    ∃ row ∈ rows, ∃ cell ∈ row, Console.read cell = none := by
  simp only [mapM_eq_none_iff]

lemma forall_mem_intercalate {p : Char → Prop} {separator : String} {parts : List String}
    (hseparator : ∀ c ∈ separator.toList, p c) (h : ∀ part ∈ parts, ∀ c ∈ part.toList, p c) :
    ∀ c ∈ (separator.intercalate parts).toList, p c := by
  induction parts with
  | nil => simp
  | cons part rest ih =>
    obtain ⟨hpart, hrest⟩ := List.forall_mem_cons.1 h
    cases rest with
    | nil => simpa using hpart
    | cons next rest =>
      rw [String.intercalate_cons_cons, String.toList_append, String.toList_append]
      simp only [List.mem_append, or_imp, forall_and]
      exact ⟨⟨hpart, hseparator⟩, ih hrest⟩

/-- Digits are ordinary. -/
lemma isOrdinary_of_isDigit {c : Char} (h : c.isDigit = true) : Markup.isOrdinary c = true := by
  have hdropped : ∀ c : Char, Markup.isOrdinary c = false → c.isDigit = false := by
    intro c hc
    simp only [Markup.isOrdinary, Column.isDropped, Bool.and_eq_false_iff, decide_eq_false_iff_not,
      not_not, Bool.not_eq_false', Bool.or_eq_true, decide_eq_true_eq, ne_eq] at hc
    rcases hc with ((rfl | rfl) | rfl) | ((((rfl | rfl) | rfl) | rfl) | rfl) <;> decide
  by_contra hnot
  rw [hdropped c (Bool.eq_false_iff.2 hnot)] at h
  cases h

/-- The last row holds digits and names of kinds. -/
lemma ordinary_countLine (d : Diff) : ∀ c ∈ d.countLine.toList, Markup.isOrdinary c = true := by
  rw [Diff.countLine]
  split
  · exact List.all_eq_true.1 (by decide)
  · refine forall_mem_intercalate (List.all_eq_true.1 (by decide)) fun part hpart => ?_
    obtain ⟨⟨kind, n⟩, -, hcount⟩ := List.mem_filterMap.1 hpart
    obtain ⟨-, hpart⟩ := Option.ite_none_left_eq_some.1 hcount
    cases hpart
    have hdigits : ∀ c ∈ Nat.toDigits 10 n, Markup.isOrdinary c = true := fun c hc =>
      isOrdinary_of_isDigit (Nat.isDigit_of_mem_toDigits (by decide) (by decide) hc)
    have hblank : Markup.isOrdinary ' ' = true := by decide
    intro c hc
    have hmem : c ∈ Nat.toDigits 10 n ∨ c = ' ' ∨ c ∈ kind.name.toList := by
      simpa [toString] using hc
    rcases hmem with hc | rfl | hc
    · exact hdigits c hc
    · exact hblank
    · exact ordinary_name kind c hc

variable [Console] [Console.Lawful]

/-- A row cannot be read if and only if one of its texts cannot. -/
lemma exists_unreadable_iff (c : Change) : (∃ cell ∈ c.row.cells, Console.read cell = none) ↔
    ∃ text ∈ c.texts, Console.read text = none := by
  have hpath : Console.read c.shownPath = none ↔ Console.read c.path = none := by
    rw [shownPath_eq]
    split
    · rename_i h
      have htop : Console.read "(top level)" = some "(top level)" :=
        read_of_ordinary (List.all_eq_true.1 (by decide))
      have hempty : Console.read "" = some "" := read_of_ordinary (by simp)
      rw [h, htop, hempty]
      exact iff_of_false (Option.some_ne_none _) (Option.some_ne_none _)
    · exact Iff.rfl
  simp only [Change.row, Change.texts, List.mem_cons, List.not_mem_nil, exists_eq_or_imp,
    read_kind, hpath, reduceCtorEq, false_or, false_and, exists_false]

/-- The table cannot be read if and only if a text of one of its changes cannot. -/
lemma read_table_eq_none_iff : ((d.table.titles :: d.table.rows.map (·.cells)).mapM
      fun row => row.mapM Console.read) = none ↔
    ∃ c ∈ d.changes, ∃ text ∈ c.texts, Console.read text = none := by
  have hplain : ∀ {cells : List String},
      (∀ cell ∈ cells, ∀ c ∈ cell.toList, Markup.isOrdinary c = true) →
        ¬∃ cell ∈ cells, Console.read cell = none := by
    rintro cells h ⟨cell, hcell, hnone⟩
    rw [read_of_ordinary (h cell hcell)] at hnone
    cases hnone
  rw [read_eq_none_iff]
  constructor
  · rintro ⟨cells, hcells, hunreadable⟩
    rcases List.mem_cons.1 hcells with rfl | hcells
    · have htitles : ∀ title ∈ ["change", "node type", "identity", "path"],
          ∀ c ∈ title.toList, Markup.isOrdinary c = true := by
        simp only [← List.all_eq_true]
        decide
      exact absurd hunreadable (hplain htitles)
    obtain ⟨row, hrow, rfl⟩ := List.mem_map.1 hcells
    rcases List.mem_append.1 hrow with hrow | hrow
    · obtain ⟨c, hc, rfl⟩ := List.mem_map.1 hrow
      exact ⟨c, hc, (exists_unreadable_iff c).1 hunreadable⟩
    · obtain rfl := List.mem_singleton.1 hrow
      exact absurd hunreadable (hplain (by simpa using ordinary_countLine d))
  · rintro ⟨c, hc, htext⟩
    refine ⟨c.row.cells, List.mem_cons_of_mem _ (List.mem_map_of_mem ?_),
      (exists_unreadable_iff c).2 htext⟩
    exact List.mem_append_left _ (List.mem_map_of_mem hc)

lemma tableText_eq_fail_iff : Command.tableText d = .fail .brokenMarkup ↔
    ∃ c ∈ d.changes, ∃ text ∈ c.texts, Console.read text = none := by
  rw [← read_table_eq_none_iff, Command.tableText]
  split
  · rename_i hsome
    rw [hsome]
    exact iff_of_false (fun h => by cases h) (fun h => by cases h)
  · rename_i hnone
    exact iff_of_true rfl hnone

omit [Console.Lawful]

/-- There is no other way for the table to fail. -/
lemma exists_tableText_iff : (∃ text, Command.tableText d = .result text) ↔
    ¬Command.tableText d = .fail .brokenMarkup := by
  rw [Command.tableText]
  split
  · exact iff_of_true ⟨_, rfl⟩ (fun h => by cases h)
  · exact iff_of_false (fun ⟨_, h⟩ => by cases h) (fun h => h rfl)

end

/-- What the row of a change shows. -/
structure Change.RowTells [Console] (c : Change) (row : TableRow) : Prop where
  /-- It shows the change exactly if the console shows each of its texts as it is, -/
  shows_iff : row.Shows c ↔ ∀ text ∈ c.texts, Console.read text = some text
  /-- which it does if there is nothing to hide, to replace or to drop in them, -/
  shows_of_plain : (∀ text ∈ c.texts, IsPlain text.toList) → row.Shows c
  /-- and does not if there is anything in them that markup hides. -/
  verbatim : row.Shows c → ∀ text ∈ c.texts, IsVerbatim text.toList

/-- What the table of a comparison shows. -/
structure Diff.TableTells [Console] (d : Diff) : Prop where
  /-- There is a row for each change, and a last row that counts them. -/
  rows : ∃ rows last, d.table.rows = rows ++ [last] ∧
    List.Forall₂ Change.RowTells d.changes rows ∧
    last.cells.map Console.read = [some "", some "", some "", some d.countLine]
  /-- It is displayed unless the console cannot read a text. -/
  displayed_iff : (∃ text, Command.tableText d = .result text) ↔
    ∀ c ∈ d.changes, ∀ text ∈ c.texts, Console.read text ≠ none
  /-- Otherwise, and so whenever a text closes a tag before any is opened, it fails with the fault
  in the markup. -/
  broken_iff : Command.tableText d = .fail .brokenMarkup ↔
    ∃ c ∈ d.changes, ∃ text ∈ c.texts, Console.read text = none
  broken_of_closesFirst : (∃ c ∈ d.changes, ∃ text ∈ c.texts, ClosesFirst text.toList) →
    Command.tableText d = .fail .brokenMarkup
  /-- What is displayed is what the cells show, as the console lays it out. -/
  displayed_eq : ∀ text, Command.tableText d = .result text → ∃ shown : List (List String),
    (d.table.titles :: d.table.rows.map (·.cells)).map (·.map Console.read) =
      shown.map (·.map some) ∧
    text = Console.layout Command.columnWidths shown

/-- **What the table of a comparison shows** on a console that can be relied on. -/
theorem Diff.table_tells [Console] [Console.Lawful] (d : Diff) : d.TableTells where
  rows := by
    refine ⟨_, _, rfl, ?_, ?_⟩
    · refine List.forall₂_map_right_iff.2 (List.forall₂_same.2 fun c _ => ⟨shows_row_iff, ?_, ?_⟩)
      · exact fun h => shows_row_iff.2 fun text htext => Console.Lawful.plain text (h text htext)
      · exact fun h text htext => Console.Lawful.hidden text (shows_row_iff.1 h text htext)
    · have hempty : Console.read "" = some "" := read_of_ordinary (by simp)
      simp only [List.map_cons, List.map_nil, hempty, read_of_ordinary (ordinary_countLine d)]
  displayed_iff := by
    rw [exists_tableText_iff, tableText_eq_fail_iff]
    simp only [not_exists, not_and, ne_eq]
  broken_iff := tableText_eq_fail_iff
  broken_of_closesFirst := by
    rintro ⟨c, hc, text, htext, hcloses⟩
    exact tableText_eq_fail_iff.2 ⟨c, hc, text, htext, Console.Lawful.closing text hcloses⟩
  displayed_eq text h := by
    rw [Command.tableText] at h
    split at h
    · rename_i shown hsome
      cases h
      exact ⟨shown, read_eq_some_iff.1 hsome, rfl⟩
    · cases h

/-- A comparison in which a function was added. -/
def Diff.ofFunction (name : String) : Diff :=
  ⟨[⟨.add, "function", "", none, some name, none, some "", none, some "", ⟨0, 0⟩, ⟨0, 0⟩⟩]⟩

/-- A name with an index in brackets is shown as it is. -/
theorem table_tells_indexed :
    ∃ c row last, (Diff.ofFunction "a[0]").changes = [c] ∧
      (Diff.ofFunction "a[0]").table.rows = [row, last] ∧ row.Shows c ∧
      ∃ text, Command.tableText (.ofFunction "a[0]") = .result text := by
  have hname : IsPlain "a[0]".toList := by
    refine ⟨?_, by simp, by simp [Column.isDropped]⟩
    simp [Markup.isVerbatim_cons, Markup.isVerbatim_nil, Markup.tag?, Markup.startsTag]
  have htexts : ∀ c ∈ (Diff.ofFunction "a[0]").changes, ∀ text ∈ c.texts,
      IsPlain text.toList := by
    intro c hc text htext
    obtain rfl := List.mem_singleton.1 hc
    have hcases : text = "function" ∨ text = "a[0]" ∨ text = "" := by
      simpa [Change.texts, Change.identity] using htext
    rcases hcases with rfl | rfl | rfl
    · exact Markup.isPlain_of_ordinary (List.all_eq_true.1 (by decide))
    · exact hname
    · exact Markup.isPlain_of_ordinary (List.all_eq_true.1 (by decide))
  obtain ⟨⟨rows, last, hrows, hall, -⟩, hdisplayed, -, -, -⟩ :=
    Diff.table_tells (.ofFunction "a[0]")
  cases hall with
  | cons hrow hrest =>
    cases hrest
    refine ⟨_, _, last, rfl, hrows, hrow.shows_of_plain (htexts _ List.mem_cons_self),
      hdisplayed.2 ?_⟩
    intro c hc text htext
    rw [Console.Lawful.plain text (htexts c hc text htext)]
    exact Option.some_ne_none _

/-- **Names in brackets break the table.**  The name `[a]` is taken for a style and not shown, and
the name `[/a]` for the end of a style that was never opened. -/
theorem not_all_shown_bracketed :
    (¬∀ d : Diff, ∀ c ∈ d.changes, c.row.Shows c) ∧
      ¬∀ d : Diff, ∃ text, Command.tableText d = .result text := by
  constructor
  · intro h
    have hshown := shows_row_iff.1 (h (.ofFunction "[a]") _ List.mem_cons_self) "[a]" (by decide)
    have hverbatim := Console.Lawful.hidden "[a]" hshown
    exact hverbatim.no_tag [] ['a'] [] rfl ⟨by decide, by simp⟩
  · intro h
    have hcloses : ClosesFirst "[/a]".toList := ⟨[], ['a'], [], rfl, by simp, by simp, by simp⟩
    refine exists_tableText_iff.1 (h (.ofFunction "[/a]")) (tableText_eq_fail_iff.2 ?_)
    exact ⟨_, List.mem_cons_self, "[/a]", by decide, Console.Lawful.closing "[/a]" hcloses⟩

end TreeDiff
