/-
# The flag for moves

A change of two joined entries carries both breadcrumbs, and it is flagged as moved if they differ.
What the flag is meant to tell is another thing: whether the parents of the two entries are joined
with each other.  Breadcrumbs are texts, so the two can part.  Parents without names share a
breadcrumb although they are not joined, and then a move is not flagged; a parent that was renamed
passes on another breadcrumb, and then entries that stayed where they were are flagged.  The flag of
a change is right exactly if the breadcrumbs below the two parents are the same just when the
parents are joined.
-/
import TreeDiff.Proofs.Silence

namespace TreeDiff

namespace Links

variable {links : Links} {l : Link}

/-- The flag of a change of two joined entries is right if it says whether their parents are other
entries than before. -/
def TellsTruth (links : Links) (l : Link) (c : Change) : Prop :=
  c.isMoved = true ↔ ¬links.JoinsParents l

lemma joinsParents_iff : links.JoinsParents l ↔
    ∃ m ∈ links, l.old.parent = some m.old.seq ∧ l.new.parent = some m.new.seq := by
  constructor
  · rintro ⟨p, q, hp, hq, m, hm, rfl, rfl⟩
    exact ⟨m, hm, hp, hq⟩
  · rintro ⟨m, hm, hp, hq⟩
    exact ⟨_, _, hp, hq, m, hm, rfl, rfl⟩

instance : Decidable (links.JoinsParents l) := decidable_of_iff _ joinsParents_iff.symm

/-- Two entries are joined as they were: they and the entries above them are joined level by level,
and no joined pair below the roots is a rename. -/
inductive AsBefore (links : Links) (old new : Entry) : Entry → Entry → Prop where
  | roots : AsBefore links old new old new
  | step {p q : Entry} {l : Link} (above : AsBefore links old new p q) (mem : l ∈ links)
      (old_mem : l.old ∈ p.children) (new_mem : l.new ∈ q.children)
      (not_rename : l.change? ≠ some .rename) : AsBefore links old new l.old l.new

end Links

/-! ## Breadcrumbs below joined entries -/

namespace Entry

lemma pathBelow_injective (parent : Nat) (path : String) :
    Function.Injective (pathBelow (some parent) path) := by
  intro label label' h
  simp only [pathBelow] at h
  split_ifs at h
  · exact h
  · exact (String.append_right_inj _).1 h

/-- Below the root, entries with one breadcrumb pass on the same one exactly if they have the same
label. -/
lemma pathOfChildren_eq_iff {o o' : Outline} {a b : Entry} (ha : a ∈ (root o).descendants)
    (hb : b ∈ (root o').descendants) (hpath : a.path = b.path) :
    a.pathOfChildren = b.pathOfChildren ↔ a.outline.label = b.outline.label := by
  refine ⟨fun h => ?_, pathOfChildren_congr ha hb hpath⟩
  obtain ⟨p, hp, hap⟩ := exists_parent ha
  obtain ⟨q, hq, hbq⟩ := exists_parent hb
  rw [pathOfChildren, pathOfChildren, (wellPlaced_root o).parent_eq p hp a hap,
    (wellPlaced_root o').parent_eq q hq b hbq, hpath] at h
  exact pathBelow_injective p.seq b.path h

end Entry

section

variable {threshold : Binary64} {links : Links} {l : Link}

/-- Joined entries have the same label exactly if they have the same name. -/
lemma Link.Justified.label_eq_iff (h : l.Justified threshold links) :
    l.old.outline.label = l.new.outline.label ↔ l.change? ≠ some .rename := by
  rw [Ne, h.change?_eq_rename_iff, not_not]
  have htype : l.old.outline.type = l.new.outline.type := h.type_eq
  constructor
  · intro hlabel
    by_contra hne
    obtain ⟨a, b, ha, hb, hab⟩ := h.identified hne
    have ha : l.old.outline.identifier = some a := ha
    have hb : l.new.outline.identifier = some b := hb
    rw [Outline.label, Outline.label, ha, hb] at hlabel
    exact hab hlabel
  · intro hname
    have hname : l.old.outline.identifier = l.new.outline.identifier := hname
    rw [Outline.label, Outline.label, htype, hname]

lemma Link.kind_of_change?_eq_move (h : l.change? = some .move) :
    l.kind = .moved ∨ l.kind = .similarMoved := by
  simp only [change?] at h
  split_ifs at h <;> simp_all

end

namespace Links.Sound

variable {threshold : Binary64} {links : Links} {old new : Entry} {p q : Entry} {l : Link}

/-- The parents of a link are joined if there is a link of these two entries. -/
lemma joinsParents_iff (hsound : links.Sound threshold old new) (hold : old.WellPlaced)
    (hnew : new.WellPlaced) (hp : p ∈ old.preorder) (hq : q ∈ new.preorder)
    (ho : l.old ∈ p.children) (hn : l.new ∈ q.children) :
    links.JoinsParents l ↔ ∃ m ∈ links, m.old = p ∧ m.new = q := by
  rw [Links.joinsParents_iff, hold.parent_eq p hp _ ho, hnew.parent_eq q hq _ hn]
  refine exists_congr fun m => and_congr_right fun hm => and_congr ?_ ?_
  · rw [Option.some_inj, eq_comm]
    exact ⟨hold.eq_of_seq (hsound.placed m hm).1 hp, congrArg Entry.seq⟩
  · rw [Option.some_inj, eq_comm]
    exact ⟨hnew.eq_of_seq (hsound.placed m hm).2 hq, congrArg Entry.seq⟩

end Links.Sound

namespace Links

variable {threshold : Binary64} {links : Links} {old new : Outline} {p q : Entry} {l : Link}

/-- Joined entries with one breadcrumb pass on another one exactly if they are a rename. -/
lemma Sound.pathOfChildren_eq_iff (hsound : links.Sound threshold (.root old) (.root new))
    (hl : l ∈ links) (hne : l ≠ ⟨.root old, .root new, .exact⟩) (hpath : l.old.path = l.new.path) :
    l.old.pathOfChildren = l.new.pathOfChildren ↔ l.change? ≠ some .rename := by
  obtain ⟨ho, hn⟩ := hsound.mem_descendants hl hne
  rw [Entry.pathOfChildren_eq_iff ho hn hpath, (hsound.justified l hl hne).label_eq_iff]

/-- Entries that are joined as they were pass on the same breadcrumb. -/
lemma AsBefore.pathOfChildren_eq (hsound : links.Sound threshold (.root old) (.root new))
    (h : links.AsBefore (.root old) (.root new) p q) :
    (p ∈ (Entry.root old).preorder ∧ q ∈ (Entry.root new).preorder) ∧
      (∃ m ∈ links, m.old = p ∧ m.new = q) ∧ p.pathOfChildren = q.pathOfChildren := by
  induction h with
  | roots =>
    refine ⟨⟨Entry.mem_preorder_self _, Entry.mem_preorder_self _⟩,
      ⟨_, hsound.roots_joined, rfl, rfl⟩, ?_⟩
    rw [Entry.pathOfChildren_root, Entry.pathOfChildren_root]
  | @step p q l above mem old_mem new_mem not_rename ih =>
    obtain ⟨⟨hp, hq⟩, -, hpath⟩ := ih
    have hpath : l.old.path = l.new.path := by
      rw [Entry.path_of_mem_children hp old_mem, Entry.path_of_mem_children hq new_mem, hpath]
    have hne : l ≠ ⟨.root old, .root new, .exact⟩ := by
      rintro rfl
      exact (Entry.wellPlaced_root old).seq_ne_of_mem_descendants
        (Entry.child_mem_descendants hp old_mem) rfl
    exact ⟨hsound.placed l mem, ⟨l, mem, rfl, rfl⟩,
      (hsound.pathOfChildren_eq_iff mem hne hpath).2 not_rename⟩

/-! ## What the flag of a change tells -/

/-- What can be said of the flag of a change `c` that reports a link `l` between children of `p` and
of `q`. -/
structure FlagMeaning (links : Links) (old new : Entry) (l : Link) (p q : Entry) (c : Change) :
    Prop where
  /-- The flag is right exactly if the breadcrumb tells whether the parents are joined. -/
  right_iff : links.TellsTruth l c ↔ (links.JoinsParents l ↔ p.pathOfChildren = q.pathOfChildren)
  /-- What is reported as a move is flagged, and rightly so. -/
  move : c.kind = .move → c.isMoved = true ∧ ¬links.JoinsParents l
  /-- If the parents are joined as they were, the flag is off, and rightly so. -/
  asBefore : links.AsBefore old new p q → c.isMoved = false ∧ links.JoinsParents l
  /-- Right below a joined pair that kept its breadcrumb, the flag is right unless the pair is
  reported as a rename. -/
  container : ∀ m ∈ links, m ≠ ⟨old, new, .exact⟩ → m.old = p → m.new = q →
    m.old.path = m.new.path →
      links.JoinsParents l ∧ (links.TellsTruth l c ↔ m.change? ≠ some .rename)

end Links

section

variable {threshold : Binary64} {limit : Option Int} {links : Links} {l : Link} {c : Change}

lemma report_of_change? (limit : Option Int) {kind : ChangeKind} (hkind : l.change? = some kind) :
    l.report limit = some (changed limit kind l.old l.new) := by
  rw [Link.report, hkind, Option.map_some]

lemma isMoved_report (hc : l.report limit = some c) :
    c.isMoved = true ↔ l.old.path ≠ l.new.path := by
  obtain ⟨kind, -, rfl⟩ := Option.map_eq_some_iff.1 hc
  exact decide_eq_true_iff

/-- **What the flag of a report on a link tells.** -/
theorem flagMeaning_report {old new : Outline} {p q : Entry}
    (hl : l ∈ linkTrees threshold (.root old) (.root new))
    (hne : l ≠ ⟨.root old, .root new, .exact⟩) (hc : l.report limit = some c)
    (hp : p ∈ (Entry.root old).preorder) (hq : q ∈ (Entry.root new).preorder)
    (ho : l.old ∈ p.children) (hn : l.new ∈ q.children) :
    (linkTrees threshold (.root old) (.root new)).FlagMeaning (.root old) (.root new) l p q c := by
  have hold := Entry.wellPlaced_root old
  have hnew := Entry.wellPlaced_root new
  have hsound := (Links.Run.linkTrees hold hnew threshold).sound
  have hparents := hsound.joinsParents_iff hold hnew hp hq ho hn
  have hmoved : c.isMoved = true ↔ p.pathOfChildren ≠ q.pathOfChildren := by
    rw [isMoved_report hc, Entry.path_of_mem_children hp ho, Entry.path_of_mem_children hq hn]
  refine ⟨?_, ?_, ?_, ?_⟩
  · rw [Links.TellsTruth, hmoved, Ne, not_iff_not]
    exact iff_comm
  · intro hkind
    obtain ⟨kind, hchange, rfl⟩ := Option.map_eq_some_iff.1 hc
    obtain rfl : kind = .move := hkind
    refine ⟨(isMoved_report hc).2 ((hsound.justified l hl hne).of_change?_eq_move hchange).2, ?_⟩
    rw [hparents]
    rintro ⟨m, hm, rfl, rfl⟩
    have hkind := Link.kind_of_change?_eq_move hchange
    rcases kind_of_mem_children hold hnew hl hm ho hn with h | h <;> simp [h] at hkind
  · intro habove
    obtain ⟨-, hjoined, hpath⟩ := habove.pathOfChildren_eq hsound
    exact ⟨Bool.eq_false_iff.2 fun h => hmoved.1 h hpath, hparents.2 hjoined⟩
  · rintro m hm hmne rfl rfl hpath
    have hjoined := hparents.2 ⟨m, hm, rfl, rfl⟩
    rw [Links.TellsTruth, hmoved, ← hsound.pathOfChildren_eq_iff hm hmne hpath]
    exact ⟨hjoined, by tauto⟩

end

/-- **When the flag for moves is right.**  Every rename, move and modification is the report on a
link below the roots.  Its flag is right exactly if the two parents pass on the same breadcrumb just
when they are joined with each other.  This is always so for a move, and for an entry whose parents
are joined as they were; right below a renamed pair that kept its breadcrumb it never is. -/
theorem flagMeaning_changes (d : Differ) (fullText : Bool) (old new : Node) :
    ∃ result, d.diff fullText (some old) (some new) = .ok result ∧
      (∀ c ∈ result.changes, c.kind = .rename ∨ c.kind = .move ∨ c.kind = .modify →
        ∃ l ∈ linkTrees d.threshold (.root (.ofNode d.schema old)) (.root (.ofNode d.schema new)),
          l ≠ ⟨.root (.ofNode d.schema old), .root (.ofNode d.schema new), .exact⟩ ∧
          l.report (d.limit fullText) = some c) ∧
      ∀ l ∈ linkTrees d.threshold (.root (.ofNode d.schema old)) (.root (.ofNode d.schema new)),
        l ≠ ⟨.root (.ofNode d.schema old), .root (.ofNode d.schema new), .exact⟩ →
          ∀ c, l.report (d.limit fullText) = some c → c ∈ result.changes ∧
            ∃ p ∈ (Entry.root (.ofNode d.schema old)).preorder,
              ∃ q ∈ (Entry.root (.ofNode d.schema new)).preorder,
                l.old ∈ p.children ∧ l.new ∈ q.children ∧
                (linkTrees d.threshold (.root (.ofNode d.schema old))
                  (.root (.ofNode d.schema new))).FlagMeaning (.root (.ofNode d.schema old))
                    (.root (.ofNode d.schema new)) l p q c := by
  have hold := Entry.wellPlaced_root (.ofNode d.schema old)
  have hnew := Entry.wellPlaced_root (.ofNode d.schema new)
  have hsound := (Links.Run.linkTrees hold hnew d.threshold).sound
  refine ⟨_, rfl, ?_, ?_⟩
  · intro c hc hkind
    refine exists_report_of_mem_classify hold hsound (Differ.mem_diffOutlines.1 hc) ?_ ?_ <;>
      rcases hkind with h | h | h <;> simp [h]
  · intro l hl hne c hc
    obtain ⟨ho, hn⟩ := hsound.mem_descendants hl hne
    obtain ⟨p, hp, hop⟩ := Entry.exists_parent ho
    obtain ⟨q, hq, hnq⟩ := Entry.exists_parent hn
    exact ⟨Differ.mem_diffOutlines.2 (report_mem_classify hold hsound hl hne hc), p, hp, q, hq, hop,
      hnq, flagMeaning_report hl hne hc hp hq hop hnq⟩

/-! ## A comparison in which the flags are right -/

/-- The links of two programs of functions. -/
def Links.ofPrograms (old new : Node) : Links :=
  linkTrees (Differ.usual .functions).threshold (.root (.ofNode .functions old))
    (.root (.ofNode .functions new))

/-- A function in a block, and another one beside the block. -/
def Node.beforeDeparture : Node :=
  .programOf [.blockOf [.ofFunction "f" "1"], .ofFunction "g" "2"]

/-- The first function has left the block and has another name, the other one has another body. -/
def Node.afterDeparture : Node :=
  .programOf [.blockOf [], .ofFunction "h" "1", .ofFunction "g" "3"]

/-- A rename that is a move is flagged, a modification in place is not. -/
theorem flags_beforeDeparture_afterDeparture :
    ∃ result, Differ.diff (.usual .functions) false (some .beforeDeparture)
        (some .afterDeparture) = .ok result ∧
      (∃ l ∈ Links.ofPrograms .beforeDeparture .afterDeparture, ∃ c ∈ result.changes,
        l.report (Differ.limit (.usual .functions) false) = some c ∧ c.kind = .rename ∧
          ¬(Links.ofPrograms .beforeDeparture .afterDeparture).JoinsParents l ∧
          c.isMoved = true) ∧
      ∃ l ∈ Links.ofPrograms .beforeDeparture .afterDeparture, ∃ c ∈ result.changes,
        l.report (Differ.limit (.usual .functions) false) = some c ∧ c.kind = .modify ∧
          (Links.ofPrograms .beforeDeparture .afterDeparture).JoinsParents l ∧
          c.isMoved = false := by
  obtain ⟨result, hdiff, -, hflags⟩ :=
    flagMeaning_changes (.usual .functions) false .beforeDeparture .afterDeparture
  have hrenamed : ∃ l ∈ Links.ofPrograms .beforeDeparture .afterDeparture,
      l.old.seq ≠ 0 ∧ l.change? = some .rename ∧ l.old.path ≠ l.new.path ∧
        ¬(Links.ofPrograms .beforeDeparture .afterDeparture).JoinsParents l := by decide +kernel
  have hmodified : ∃ l ∈ Links.ofPrograms .beforeDeparture .afterDeparture,
      l.old.seq ≠ 0 ∧ l.change? = some .modify ∧ l.old.path = l.new.path ∧
        (Links.ofPrograms .beforeDeparture .afterDeparture).JoinsParents l := by decide +kernel
  -- where the breadcrumbs tell whether the parents are joined, the flag is right
  have htruth : ∀ l ∈ Links.ofPrograms .beforeDeparture .afterDeparture, l.old.seq ≠ 0 →
      ∀ kind, l.change? = some kind →
        ((Links.ofPrograms .beforeDeparture .afterDeparture).JoinsParents l ↔
          l.old.path = l.new.path) →
        ∃ c ∈ result.changes, l.report (Differ.limit (.usual .functions) false) = some c ∧
          c.kind = kind ∧ (Links.ofPrograms .beforeDeparture .afterDeparture).TellsTruth l c := by
    intro l hl hbelow kind hkind hpath
    have hne : l ≠ ⟨.root (.ofNode .functions .beforeDeparture),
        .root (.ofNode .functions .afterDeparture), .exact⟩ := fun heq => hbelow (by rw [heq]; rfl)
    have hreport := report_of_change? (Differ.limit (.usual .functions) false) hkind
    obtain ⟨hc, p, hp, q, hq, ho, hn, hmeaning⟩ := hflags l hl hne _ hreport
    rw [Entry.path_of_mem_children hp ho, Entry.path_of_mem_children hq hn] at hpath
    exact ⟨_, hc, hreport, rfl, hmeaning.right_iff.2 hpath⟩
  refine ⟨result, hdiff, ?_, ?_⟩
  · obtain ⟨l, hl, hbelow, hkind, hpath, hparents⟩ := hrenamed
    obtain ⟨c, hc, hreport, hkind, htruth⟩ :=
      htruth l hl hbelow _ hkind (iff_of_false hparents hpath)
    exact ⟨l, hl, c, hc, hreport, hkind, hparents, htruth.2 hparents⟩
  · obtain ⟨l, hl, hbelow, hkind, hpath, hparents⟩ := hmodified
    obtain ⟨c, hc, hreport, hkind, htruth⟩ :=
      htruth l hl hbelow _ hkind (iff_of_true hparents hpath)
    exact ⟨l, hl, c, hc, hreport, hkind, hparents,
      Bool.eq_false_iff.2 fun hmoved => htruth.1 hmoved hparents⟩

/-! ## A comparison in which the flags are wrong -/

/-- A function whose body is another function. -/
def Node.ofEnclosing (name : String) (inner : Node) : Node :=
  ⟨"function", "def " ++ name ++ ": " ++ inner.text, true, ⟨0, 0⟩, ⟨0, 0⟩, none,
    [⟨"identifier", name, true, ⟨0, 0⟩, ⟨0, 0⟩, some "name", []⟩,
      ⟨"block", inner.text, true, ⟨0, 0⟩, ⟨0, 0⟩, some "body", [inner]⟩]⟩

/-- A function inside another one, and a function in the first of two blocks. -/
def Node.beforeCrossing : Node :=
  .programOf [.ofEnclosing "a" (.ofFunction "g" "1"), .blockOf [.ofFunction "f" "1"], .blockOf []]

/-- The outer function has another name and the inner one another body; the function of the first
block went over to the second one and has another name. -/
def Node.afterCrossing : Node :=
  .programOf [.ofEnclosing "b" (.ofFunction "g" "2"), .blockOf [], .blockOf [.ofFunction "h" "1"]]

/-- **A modification in place is flagged, and a rename that is a move is not.**  The inner function
stays in the body of its function, but the breadcrumb shows the name of that function.  The function
that went over to another block has the same breadcrumb as before, since blocks have no names. -/
theorem flags_beforeCrossing_afterCrossing :
    ∃ result, Differ.diff (.usual .functions) false (some .beforeCrossing)
        (some .afterCrossing) = .ok result ∧
      (∃ l ∈ Links.ofPrograms .beforeCrossing .afterCrossing, ∃ c ∈ result.changes,
        l.report (Differ.limit (.usual .functions) false) = some c ∧ c.kind = .modify ∧
          (Links.ofPrograms .beforeCrossing .afterCrossing).JoinsParents l ∧ c.isMoved = true) ∧
      ∃ l ∈ Links.ofPrograms .beforeCrossing .afterCrossing, ∃ c ∈ result.changes,
        l.report (Differ.limit (.usual .functions) false) = some c ∧ c.kind = .rename ∧
          ¬(Links.ofPrograms .beforeCrossing .afterCrossing).JoinsParents l ∧
          c.isMoved = false := by
  have hmodified : ∃ l ∈ Links.ofPrograms .beforeCrossing .afterCrossing,
      l.old.seq ≠ 0 ∧ l.change? = some .modify ∧ l.old.path ≠ l.new.path ∧
        (Links.ofPrograms .beforeCrossing .afterCrossing).JoinsParents l := by decide +kernel
  have hrenamed : ∃ l ∈ Links.ofPrograms .beforeCrossing .afterCrossing,
      l.old.seq ≠ 0 ∧ l.change? = some .rename ∧ l.old.path = l.new.path ∧
        ¬(Links.ofPrograms .beforeCrossing .afterCrossing).JoinsParents l := by decide +kernel
  have hreported : ∀ l ∈ Links.ofPrograms .beforeCrossing .afterCrossing, l.old.seq ≠ 0 →
      ∀ c, l.report (Differ.limit (.usual .functions) false) = some c →
        c ∈ (Differ.diffOutlines (.usual .functions) false (.ofNode .functions .beforeCrossing)
          (.ofNode .functions .afterCrossing)).changes := by
    intro l hl hbelow c hc
    have hold := Entry.wellPlaced_root (.ofNode .functions .beforeCrossing)
    have hnew := Entry.wellPlaced_root (.ofNode .functions .afterCrossing)
    exact Differ.mem_diffOutlines.2 (report_mem_classify hold
      (Links.Run.linkTrees hold hnew _).sound hl (fun heq => hbelow (by rw [heq]; rfl)) hc)
  refine ⟨_, rfl, ?_, ?_⟩
  · obtain ⟨l, hl, hbelow, hkind, hpath, hparents⟩ := hmodified
    have hreport := report_of_change? (Differ.limit (.usual .functions) false) hkind
    exact ⟨l, hl, _, hreported l hl hbelow _ hreport, hreport, rfl, hparents,
      (isMoved_report hreport).2 hpath⟩
  · obtain ⟨l, hl, hbelow, hkind, hpath, hparents⟩ := hrenamed
    have hreport := report_of_change? (Differ.limit (.usual .functions) false) hkind
    exact ⟨l, hl, _, hreported l hl hbelow _ hreport, hreport, rfl, hparents,
      Bool.eq_false_iff.2 fun hmoved => (isMoved_report hreport).1 hmoved hpath⟩

end TreeDiff
