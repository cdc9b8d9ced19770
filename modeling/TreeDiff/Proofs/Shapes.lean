/-
# The shape of each change

The kind of a change is decided by the way in which its entries came to be joined and by their
breadcrumbs.  What the kind promises to a reader is another matter: a rename shows two different
names, a move one name and two breadcrumbs, a modification one name and different intents.  The
promise is kept because the links are sound: entries are joined by similarity only if their names
differ, and in any other way only if their names are the same.
-/
import TreeDiff.Proofs.Changes

namespace TreeDiff

section

variable {threshold : Binary64} {limit : Option Int} {links : Links} {l : Link}

/-- Entries are joined by similarity if their names differ, and else by their keys or as a move. -/
lemma Link.Justified.names (h : l.Justified threshold links) :
    (∃ a b, l.old.identifier = some a ∧ l.new.identifier = some b ∧ a ≠ b) ∧
        (l.kind = .similar ∨ l.kind = .similarMoved) ∨
      l.old.identifier = l.new.identifier ∧
        (l.kind = .exact ∧ links.JoinsParents l ∨ l.kind = .moved ∧ l.old.isIdentified = true) := by
  have hmeaning := h.meaning
  rw [Meaning] at hmeaning
  cases hkind : l.kind with
  | exact =>
    rw [hkind] at hmeaning
    exact Or.inr ⟨hmeaning.2.1, Or.inl ⟨rfl, hmeaning.1⟩⟩
  | similar =>
    rw [hkind] at hmeaning
    exact Or.inl ⟨hmeaning.2.identified, Or.inl rfl⟩
  | moved =>
    rw [hkind] at hmeaning
    obtain ⟨name, ha, hb⟩ := hmeaning
    exact Or.inr ⟨ha.trans hb.symm, Or.inr ⟨rfl, by rw [Entry.isIdentified, ha]; rfl⟩⟩
  | similarMoved =>
    rw [hkind] at hmeaning
    exact Or.inl ⟨hmeaning.identified, Or.inr rfl⟩

/-- **What a sound link stands for:** names are compared first, then breadcrumbs if the link was
made as a move, then intents. -/
theorem Link.Justified.change?_eq (h : l.Justified threshold links) : l.change? =
    if l.old.identifier ≠ l.new.identifier then some .rename
    else if l.kind = .moved ∧ l.old.path ≠ l.new.path then some .move
    else if l.old.outline.intents ≠ l.new.outline.intents then some .modify
    else none := by
  rcases h.names with ⟨⟨a, b, ha, hb, hne⟩, hkind | hkind⟩ | ⟨hname, ⟨hkind, -⟩ | ⟨hkind, -⟩⟩
  · simp [change?, hkind, ha, hb, hne]
  · simp [change?, hkind, ha, hb, hne]
  · simp [change?, hkind, hname]
  · simp [change?, hkind, hname]

/-- Joined entries whose names differ both have one. -/
lemma Link.Justified.identified (h : l.Justified threshold links)
    (hne : l.old.identifier ≠ l.new.identifier) :
    ∃ a b, l.old.identifier = some a ∧ l.new.identifier = some b ∧ a ≠ b :=
  (h.names.resolve_right fun hsame => hne hsame.1).1

/-- Joined entries with the same name were joined by their keys or as a move. -/
lemma Link.Justified.kind_of_identifier_eq (h : l.Justified threshold links)
    (hname : l.old.identifier = l.new.identifier) :
    l.kind = .exact ∧ links.JoinsParents l ∨ l.kind = .moved ∧ l.old.isIdentified = true := by
  refine (h.names.resolve_left ?_).2
  rintro ⟨⟨a, b, ha, hb, hne⟩, -⟩
  exact hne (Option.some.inj (ha.symm.trans (hname.trans hb)))

lemma Link.Justified.change?_eq_rename_iff (h : l.Justified threshold links) :
    l.change? = some .rename ↔ l.old.identifier ≠ l.new.identifier := by
  rw [h.change?_eq]
  split_ifs <;> simp_all

/-- A move has one name and two breadcrumbs. -/
lemma Link.Justified.of_change?_eq_move (h : l.Justified threshold links)
    (hmove : l.change? = some .move) :
    (∃ name, l.old.identifier = some name ∧ l.new.identifier = some name) ∧
      l.old.path ≠ l.new.path := by
  rw [h.change?_eq] at hmove
  split_ifs at hmove with hname hmoved
  · simp at hmove
  · rcases h.kind_of_identifier_eq (not_not.1 hname) with ⟨hkind, -⟩ | ⟨-, hid⟩
    · exact absurd (hmoved.1.symm.trans hkind) (by decide)
    · obtain ⟨name, ha⟩ := Option.isSome_iff_exists.1 hid
      exact ⟨⟨name, ha, (not_not.1 hname).symm.trans ha⟩, hmoved.2⟩
  · simp at hmove

/-- A modification has one name, or none on either side, and different intents. -/
lemma Link.Justified.of_change?_eq_modify (h : l.Justified threshold links)
    (hmodify : l.change? = some .modify) :
    l.old.identifier = l.new.identifier ∧ l.old.outline.intents ≠ l.new.outline.intents := by
  rw [h.change?_eq] at hmodify
  split_ifs at hmodify with hname hmoved hintents
  · simp at hmodify
  · simp at hmodify
  · exact ⟨not_not.1 hname, hintents⟩

end

/-! ## What a change shows -/

/-- The shape that a change of its kind has. -/
structure Change.WellShaped (c : Change) : Prop where
  rename : c.kind = .rename → ∃ a b, c.oldIdentity = some a ∧ c.newIdentity = some b ∧ a ≠ b
  move : c.kind = .move → (∃ name, c.oldIdentity = some name ∧ c.newIdentity = some name) ∧
    ∃ p q, c.oldPath = some p ∧ c.newPath = some q ∧ p ≠ q
  modify : c.kind = .modify → c.oldIdentity = c.newIdentity
  remove : c.kind = .remove → c.newIdentity = none ∧ c.newValue = none ∧ c.newPath = none
  add : c.kind = .add → c.oldIdentity = none ∧ c.oldValue = none ∧ c.oldPath = none
  /-- The breadcrumb is that of the old entry, or of the new one for an addition. -/
  path : (if c.kind = .add then c.newPath else c.oldPath) = some c.path

section

variable {threshold : Binary64} {limit : Option Int} {links : Links} {old new : Entry} {l : Link}
  {c : Change}

lemma wellShaped_removed (limit : Option Int) (e : Entry) : (removed limit e).WellShaped := by
  constructor <;> simp [removed]

lemma wellShaped_added (limit : Option Int) (e : Entry) : (added limit e).WellShaped := by
  constructor <;> simp [added]

lemma wellShaped_report (h : l.Justified threshold links) (hc : l.report limit = some c) :
    c.WellShaped := by
  obtain ⟨kind, hkind, rfl⟩ := Option.map_eq_some_iff.1 hc
  refine ⟨?_, ?_, ?_, ?_, ?_, ?_⟩
  · rintro rfl
    exact h.identified (h.change?_eq_rename_iff.1 hkind)
  · rintro rfl
    obtain ⟨hname, hpath⟩ := h.of_change?_eq_move hkind
    exact ⟨hname, _, _, rfl, rfl, hpath⟩
  · rintro rfl
    exact (h.of_change?_eq_modify hkind).1
  · rintro rfl
    exact absurd rfl (report_kind hc).1
  · rintro rfl
    exact absurd rfl (report_kind hc).2
  · exact if_neg (report_kind hc).2

/-- The changes of joined entries are the reports on their links. -/
lemma exists_report_of_mem_classify (hold : old.WellPlaced) (hsound : links.Sound threshold old new)
    (hc : c ∈ classify limit links old new) (hremove : c.kind ≠ .remove) (hadd : c.kind ≠ .add) :
    ∃ l ∈ links, l ≠ ⟨old, new, .exact⟩ ∧ l.report limit = some c := by
  rcases (mem_classify hold hsound).1 hc with ⟨l, hl, hreport⟩ | ⟨o, -, -, rfl⟩ | ⟨n, -, -, rfl⟩
  · obtain ⟨hl, hne⟩ := (mem_belowRoots hsound).1 hl
    exact ⟨l, hl, hne, hreport⟩
  · exact absurd rfl hremove
  · exact absurd rfl hadd

lemma report_mem_classify (hold : old.WellPlaced) (hsound : links.Sound threshold old new)
    (hl : l ∈ links) (hne : l ≠ ⟨old, new, .exact⟩) (hc : l.report limit = some c) :
    c ∈ classify limit links old new :=
  (mem_classify hold hsound).2 (Or.inl ⟨l, (mem_belowRoots hsound).2 ⟨hl, hne⟩, hc⟩)

lemma wellShaped_of_mem_classify (hold : old.WellPlaced) (hsound : links.Sound threshold old new)
    (hc : c ∈ classify limit links old new) : c.WellShaped := by
  rcases (mem_classify hold hsound).1 hc with ⟨l, hl, hreport⟩ | ⟨o, -, -, rfl⟩ | ⟨n, -, -, rfl⟩
  · obtain ⟨hl, hne⟩ := (mem_belowRoots hsound).1 hl
    exact wellShaped_report (hsound.justified l hl hne) hreport
  · exact wellShaped_removed limit o
  · exact wellShaped_added limit n

end

/-- **Every change has the shape of its kind.**  Two joined entries below the roots are reported as
a rename exactly if their names differ; and what is reported as a modification has different
intents. -/
theorem wellShaped_changes (d : Differ) (fullText : Bool) (old new : Node) :
    ∃ result, d.diff fullText (some old) (some new) = .ok result ∧
      (∀ l ∈ linkTrees d.threshold (.root (.ofNode d.schema old)) (.root (.ofNode d.schema new)),
        l ≠ ⟨.root (.ofNode d.schema old), .root (.ofNode d.schema new), .exact⟩ →
          ((∃ c ∈ result.changes, l.report (d.limit fullText) = some c ∧ c.kind = .rename) ↔
            l.old.identifier ≠ l.new.identifier)) ∧
      (∀ c ∈ result.changes, c.WellShaped) ∧
      ∀ c ∈ result.changes, c.kind = .modify →
        ∃ l ∈ linkTrees d.threshold (.root (.ofNode d.schema old)) (.root (.ofNode d.schema new)),
          l ≠ ⟨.root (.ofNode d.schema old), .root (.ofNode d.schema new), .exact⟩ ∧
          l.report (d.limit fullText) = some c ∧
          l.old.outline.intents ≠ l.new.outline.intents := by
  have hold := Entry.wellPlaced_root (.ofNode d.schema old)
  have hnew := Entry.wellPlaced_root (.ofNode d.schema new)
  have hsound := (Links.Run.linkTrees hold hnew d.threshold).sound
  refine ⟨_, rfl, ?_, ?_, ?_⟩
  · intro l hl hne
    have hjust := hsound.justified l hl hne
    rw [← hjust.change?_eq_rename_iff]
    constructor
    · rintro ⟨c, -, hreport, hkind⟩
      obtain ⟨kind, hchange, rfl⟩ := Option.map_eq_some_iff.1 hreport
      rwa [← show kind = .rename from hkind]
    · intro hchange
      have hreport : l.report (d.limit fullText) =
          some (changed (d.limit fullText) .rename l.old l.new) := by
        rw [Link.report, hchange, Option.map_some]
      exact ⟨_, Differ.mem_diffOutlines.2 (report_mem_classify hold hsound hl hne hreport), hreport,
        rfl⟩
  · intro c hc
    exact wellShaped_of_mem_classify hold hsound (Differ.mem_diffOutlines.1 hc)
  · intro c hc hkind
    obtain ⟨l, hl, hne, hreport⟩ := exists_report_of_mem_classify hold hsound
      (Differ.mem_diffOutlines.1 hc) (by simp [hkind]) (by simp [hkind])
    obtain ⟨kind, hchange, rfl⟩ := Option.map_eq_some_iff.1 hreport
    obtain rfl : kind = .modify := hkind
    exact ⟨l, hl, hne, hreport, ((hsound.justified l hl hne).of_change?_eq_modify hchange).2⟩

/-- The first function with another name, the second one with another body. -/
def Node.afterEdit : Node := .programOf [.ofFunction "h" "1", .ofFunction "g" "3"]

/-- One function is renamed, the other one modified. -/
theorem renamed_and_modified_twoFunctions_afterEdit :
    ∃ result, Differ.diff (.usual .functions) false (some .twoFunctions) (some .afterEdit) =
        .ok result ∧
      (∃ c ∈ result.changes, c.kind = .rename ∧
        ∃ a b, c.oldIdentity = some a ∧ c.newIdentity = some b ∧ a ≠ b) ∧
      ∃ c ∈ result.changes, c.kind = .modify ∧ c.oldIdentity = c.newIdentity := by
  obtain ⟨result, hdiff, hrename, hshape, -⟩ :=
    wellShaped_changes (.usual .functions) false .twoFunctions .afterEdit
  have hchanges : ∃ c ∈ classify (Differ.limit (.usual .functions) false)
      (linkTrees (Differ.usual .functions).threshold (.root (.ofNode .functions .twoFunctions))
        (.root (.ofNode .functions .afterEdit)))
      (.root (.ofNode .functions .twoFunctions)) (.root (.ofNode .functions .afterEdit)),
      c.kind = .modify := by decide +kernel
  have hlink : ∃ l ∈ linkTrees (Differ.usual .functions).threshold
      (.root (.ofNode .functions .twoFunctions)) (.root (.ofNode .functions .afterEdit)),
      l.old.seq ≠ 0 ∧ l.old.identifier ≠ l.new.identifier := by decide +kernel
  obtain rfl := Except.ok.inj hdiff
  refine ⟨_, rfl, ?_, ?_⟩
  · obtain ⟨l, hl, hbelow, hne⟩ := hlink
    obtain ⟨c, hc, -, hkind⟩ := (hrename l hl fun heq => hbelow (by rw [heq]; rfl)).2 hne
    exact ⟨c, hc, hkind, (hshape c hc).rename hkind⟩
  · obtain ⟨c, hc, hkind⟩ := hchanges
    have hc := Differ.mem_diffOutlines.2 hc
    exact ⟨c, hc, hkind, (hshape c hc).modify hkind⟩

end TreeDiff
