/-
# Reports of the same comparison

Two comparisons under one schema and one threshold, of trees that agree in everything but their
positions, find the same changes, however much of a text is shown.  Each stage of the matching is
followed with the positions taken away; what a change says apart from texts and positions is then
the same.  Positions have a say in the order of the changes alone, and the limit for texts not
even there: a cut text is the cut of the text that is shown in full.
-/
import TreeDiff.Parsing.Parser
import TreeDiff.Proofs.Changes
import TreeDiff.Proofs.Unplaced

namespace TreeDiff

/-- Sorting does not mind what the order does not look at. -/
lemma mergeSort_map {α : Type} (le : α → α → Bool) {f : α → α}
    (h : ∀ a b, le (f a) (f b) = le a b) (items : List α) :
    (items.map f).mergeSort le = (items.mergeSort le).map f :=
  (List.map_mergeSort fun a _ b _ => (h a b).symm).symm

/-! ## Pairing siblings -/

/-- A candidate without positions. -/
def Candidate.unplaced (c : Candidate) : Candidate := ⟨c.old.unplaced, c.new.unplaced, c.score⟩

/-- A candidate for a move without positions. -/
def MoveCandidate.unplaced (c : MoveCandidate) : MoveCandidate :=
  ⟨c.toCandidate.unplaced, c.sameName⟩

section

variable (threshold : Binary64) (links : Links) (olds news : List Entry) (old new : Entry)

lemma ofType_unplaced (type : String) :
    ofType type (olds.map Entry.unplaced) = (ofType type olds).map Entry.unplaced := by
  rw [ofType, ofType, List.filter_map]
  congr 2
  funext e
  simp

lemma typesOf_unplaced : typesOf (olds.map Entry.unplaced) = typesOf olds := by
  rw [typesOf, typesOf, List.map_map]
  congr 2
  funext e
  simp

lemma takeFirst?_unplaced (key : Key) :
    takeFirst? (fun e : Entry => e.key = key) (news.map Entry.unplaced) =
      (takeFirst? (fun e : Entry => e.key = key) news).map fun (e, rest) =>
        (e.unplaced, rest.map Entry.unplaced) := by
  induction news with
  | nil => rfl
  | cons e rest ih =>
    rw [List.map_cons, takeFirst?, takeFirst?, ih, Entry.key_unplaced]
    by_cases hkey : e.key = key
    · simp [hkey]
    · simp [hkey, Function.comp_def]

lemma pairByKey_unplaced :
    pairByKey (olds.map Entry.unplaced) (news.map Entry.unplaced) =
      (pairByKey olds news).map fun (o, n) => (o.unplaced, n.unplaced) := by
  induction olds generalizing news with
  | nil => rfl
  | cons o rest ih =>
    rw [List.map_cons, pairByKey, pairByKey, Entry.key_unplaced, takeFirst?_unplaced]
    cases takeFirst? (fun n : Entry => n.key = o.key) news with
    | none => exact ih news
    | some taken =>
      obtain ⟨n, left⟩ := taken
      simp [ih left]

lemma similarCandidates_unplaced :
    similarCandidates threshold (olds.map Entry.unplaced) (news.map Entry.unplaced) =
      (similarCandidates threshold olds news).map Candidate.unplaced := by
  rw [similarCandidates, similarCandidates, List.flatMap_map, List.map_flatMap]
  congr 1
  funext o
  rw [List.filterMap_map, List.map_filterMap]
  congr 1
  funext n
  simp only [Function.comp_apply, Entry.similarity_unplaced]
  split <;> rfl

lemma conflicts_unplaced (c d : Candidate) : c.unplaced.conflicts d.unplaced = c.conflicts d := by
  simp [Candidate.conflicts, Candidate.unplaced]

lemma siblingKey_unplaced (c : Candidate) : c.unplaced.siblingKey = c.siblingKey := by
  simp [Candidate.siblingKey, Candidate.scoreKey, Candidate.unplaced]

lemma greedyFrom_unplaced (chosen cs : List Candidate) :
    greedyFrom (chosen.map Candidate.unplaced) (cs.map Candidate.unplaced) =
      (greedyFrom chosen cs).map Candidate.unplaced := by
  induction cs generalizing chosen with
  | nil => rfl
  | cons c rest ih =>
    have hany : (chosen.map Candidate.unplaced).any c.unplaced.conflicts =
        chosen.any c.conflicts := by
      rw [List.any_map]
      exact congrArg chosen.any (funext fun d => conflicts_unplaced c d)
    rw [List.map_cons, greedyFrom, greedyFrom, hany]
    split
    · exact ih chosen
    · rw [List.map_cons, ← ih (c :: chosen), List.map_cons]

lemma pairSimilar_unplaced :
    pairSimilar threshold (olds.map Entry.unplaced) (news.map Entry.unplaced) =
      (pairSimilar threshold olds news).map Candidate.unplaced := by
  rw [pairSimilar, pairSimilar, similarCandidates_unplaced, mergeSort_map _ fun c d => by
    rw [siblingKey_unplaced, siblingKey_unplaced]]
  exact greedyFrom_unplaced [] _

lemma linkSiblings_unplaced :
    linkSiblings threshold (olds.map Entry.unplaced) (news.map Entry.unplaced) =
      (linkSiblings threshold olds news).map Link.unplaced := by
  -- what the keys leave over is the same, since it is told by numbers
  have hold : ((olds.map Entry.unplaced).filter fun e => e.isIdentified &&
      !((pairByKey olds news).map fun (o, n) => (o.unplaced, n.unplaced)).any
        fun p => p.1.seq == e.seq) =
      (olds.filter fun e => e.isIdentified &&
        !(pairByKey olds news).any fun p => p.1.seq == e.seq).map Entry.unplaced := by
    rw [List.filter_map]
    congr 2
    funext e
    simp [List.any_map, Function.comp_def]
  have hnew : ((news.map Entry.unplaced).filter fun e => e.isIdentified &&
      !((pairByKey olds news).map fun (o, n) => (o.unplaced, n.unplaced)).any
        fun p => p.2.seq == e.seq) =
      (news.filter fun e => e.isIdentified &&
        !(pairByKey olds news).any fun p => p.2.seq == e.seq).map Entry.unplaced := by
    rw [List.filter_map]
    congr 2
    funext e
    simp [List.any_map, Function.comp_def]
  simp only [linkSiblings, pairByKey_unplaced]
  rw [hold, hnew, pairSimilar_unplaced, List.map_append, List.map_map, List.map_map, List.map_map,
    List.map_map]
  rfl

lemma filter_freeOld_unplaced (es : List Entry) :
    (es.map Entry.unplaced).filter links.unplaced.freeOld =
      (es.filter links.freeOld).map Entry.unplaced := by
  rw [List.filter_map]
  congr 2
  funext e
  simp

lemma filter_freeNew_unplaced (es : List Entry) :
    (es.map Entry.unplaced).filter links.unplaced.freeNew =
      (es.filter links.freeNew).map Entry.unplaced := by
  rw [List.filter_map]
  congr 2
  funext e
  simp

lemma linkChildren_unplaced :
    linkChildren threshold links.unplaced old.unplaced new.unplaced =
      (linkChildren threshold links old new).map Link.unplaced := by
  simp only [linkChildren, Entry.children_unplaced, filter_freeOld_unplaced,
    filter_freeNew_unplaced, typesOf_unplaced, ofType_unplaced, linkSiblings_unplaced,
    List.map_flatMap]

/-! ## Linking whole trees -/

lemma find?_made_unplaced (made : List Link) (seq : Nat) :
    ((made.map Link.unplaced).find? fun l => l.old.seq = seq) =
      (made.find? fun l => l.old.seq = seq).map Link.unplaced := by
  rw [List.find?_map]
  congr 2
  funext l
  simp [Link.unplaced]

mutual

/-- The descent below two joined entries does not look at positions. -/
lemma linkBelow_unplaced : ∀ (old new : Entry) (links : Links),
    linkBelow threshold old.unplaced new.unplaced links.unplaced =
      (linkBelow threshold old new links).unplaced
  | ⟨seq, parent, ordinal, depth, path, outline, children⟩, new, links => by
    have hmade := linkChildren_unplaced threshold links
      ⟨seq, parent, ordinal, depth, path, outline, children⟩ new
    rw [Entry.unplaced] at hmade
    rw [Entry.unplaced, linkBelow, linkBelow, hmade, Links.joinAll_unplaced]
    exact linkBelowEach_unplaced _ children _

lemma linkBelowEach_unplaced (made : List Link) : ∀ (children : List Entry) (links : Links),
    linkBelowEach threshold (made.map Link.unplaced) (Entry.unplacedAll children) links.unplaced =
      (linkBelowEach threshold made children links).unplaced
  | [], _ => rfl
  | child :: rest, links => by
    rw [Entry.unplacedAll, linkBelowEach, linkBelowEach, Entry.seq_unplaced, find?_made_unplaced]
    cases made.find? fun l => l.old.seq = child.seq with
    | none => exact linkBelowEach_unplaced made rest links
    | some l =>
      have hbelow := linkBelow_unplaced child l.new links
      simp only [Option.map_some]
      rw [← linkBelowEach_unplaced made rest, ← hbelow]
      rfl

end

lemma linkInPlace_unplaced : linkInPlace threshold old.unplaced new.unplaced =
    (linkInPlace threshold old new).unplaced :=
  linkBelow_unplaced threshold old new [⟨old, new, .exact⟩]

lemma moveCandidate?_unplaced : moveCandidate? threshold old.unplaced new.unplaced =
    (moveCandidate? threshold old new).map MoveCandidate.unplaced := by
  simp only [moveCandidate?, Entry.identifier_unplaced, Entry.similarity_unplaced]
  split
  · rfl
  · split <;> rfl

lemma MoveCandidate.key_unplaced (c : MoveCandidate) : c.unplaced.key = c.key := by
  obtain ⟨c, sameName⟩ := c
  cases sameName <;> simp [key, unplaced, Candidate.scoreKey, Candidate.unplaced]

lemma moveCandidates_unplaced :
    moveCandidates threshold links.unplaced old.unplaced new.unplaced =
      (moveCandidates threshold links old new).map MoveCandidate.unplaced := by
  have hold : (old.unplaced.preorder.filter fun e => links.unplaced.freeOld e && e.isIdentified) =
      (old.preorder.filter fun e => links.freeOld e && e.isIdentified).map Entry.unplaced := by
    rw [Entry.preorder_unplaced, List.filter_map]
    congr 2
    funext e
    simp
  have hnew : (new.unplaced.preorder.filter fun e => links.unplaced.freeNew e && e.isIdentified) =
      (new.preorder.filter fun e => links.freeNew e && e.isIdentified).map Entry.unplaced := by
    rw [Entry.preorder_unplaced, List.filter_map]
    congr 2
    funext e
    simp
  have hfound (type : String) (os ns : List Entry) :
      ((ofType type (os.map Entry.unplaced)).flatMap fun o =>
        (ofType type (ns.map Entry.unplaced)).filterMap (moveCandidate? threshold o)) =
      ((ofType type os).flatMap fun o =>
        (ofType type ns).filterMap (moveCandidate? threshold o)).map MoveCandidate.unplaced := by
    rw [ofType_unplaced, ofType_unplaced, List.flatMap_map, List.map_flatMap]
    congr 1
    funext o
    rw [List.filterMap_map, List.map_filterMap]
    congr 1
    funext n
    exact moveCandidate?_unplaced threshold o n
  have hsort := mergeSort_map (fun c d : MoveCandidate => lexNotAfter c.key d.key)
    (f := MoveCandidate.unplaced) fun c d => by
      rw [MoveCandidate.key_unplaced, MoveCandidate.key_unplaced]
  simp only [moveCandidates, hold, hnew, typesOf_unplaced, hfound, ← List.map_flatMap, hsort]

lemma acceptMove_unplaced (c : MoveCandidate) :
    acceptMove threshold links.unplaced c.unplaced = (acceptMove threshold links c).unplaced := by
  have hfree : (links.unplaced.freeOld c.unplaced.old && links.unplaced.freeNew c.unplaced.new) =
      (links.freeOld c.old && links.freeNew c.new) := by
    simp [MoveCandidate.unplaced, Candidate.unplaced]
  rw [acceptMove, acceptMove, hfree]
  split
  · exact linkBelow_unplaced threshold c.old c.new (c.link :: links)
  · rfl

lemma foldl_acceptMove_unplaced (cs : List MoveCandidate) (links : Links) :
    (cs.map MoveCandidate.unplaced).foldl (acceptMove threshold) links.unplaced =
      (cs.foldl (acceptMove threshold) links).unplaced := by
  induction cs generalizing links with
  | nil => rfl
  | cons c rest ih =>
    rw [List.map_cons, List.foldl_cons, List.foldl_cons, acceptMove_unplaced, ih]

/-- **Positions do not matter for the matching.** -/
theorem linkTrees_unplaced : linkTrees threshold old.unplaced new.unplaced =
    (linkTrees threshold old new).unplaced := by
  rw [linkTrees, linkTrees, linkMoves, linkMoves, linkInPlace_unplaced, moveCandidates_unplaced]
  exact foldl_acceptMove_unplaced threshold _ _

end

/-! ## Changes -/

namespace Change

/-- What a change says apart from texts and positions. -/
def gist (c : Change) : Change :=
  { c with oldValue := none, newValue := none, start := ⟨0, 0⟩, stop := ⟨0, 0⟩ }

/-- The change without texts. -/
def untexted (c : Change) : Change := { c with oldValue := none, newValue := none }

/-- The change with its texts cut. -/
def cut (limit : Option Int) (c : Change) : Change :=
  { c with
    oldValue := c.oldValue.map fun text => Text.truncate text limit
    newValue := c.newValue.map fun text => Text.truncate text limit }

@[simp] lemma cut_none (c : Change) : c.cut none = c := by
  simp [cut, Text.truncate]

end Change

section

variable (limit limit' : Option Int) (links : Links) (old new e : Entry)

lemma gist_changed (kind : ChangeKind) : (changed limit kind old new).gist =
    (changed limit' kind old.unplaced new.unplaced).gist := by
  simp [changed, Change.gist]

lemma gist_removed : (removed limit e).gist = (removed limit' e.unplaced).gist := by
  simp [removed, Change.gist]

lemma gist_added : (added limit e).gist = (added limit' e.unplaced).gist := by
  simp [added, Change.gist]

lemma Link.change?_unplaced (l : Link) : l.unplaced.change? = l.change? := by
  obtain ⟨old, new, kind⟩ := l
  cases kind <;> simp [change?, unplaced]

lemma oldChange?_gist : (oldChange? limit links e).map Change.gist =
    (oldChange? limit' links.unplaced e.unplaced).map Change.gist := by
  rw [oldChange?, oldChange?, Links.ofOld?_unplaced]
  cases links.ofOld? e with
  | none =>
    have hjoins : links.unplaced.joinsOld = links.joinsOld :=
      funext (Links.joinsOld_unplaced links)
    simp only [Option.map_none, Entry.parent_unplaced, hjoins]
    split
    · exact congrArg some (gist_removed limit limit' e)
    · rfl
  | some l =>
    simp only [Option.map_some, Link.change?_unplaced, Option.map_map]
    congr 1
    funext kind
    exact gist_changed limit limit' e l.new kind

lemma newChange?_gist : (newChange? limit links e).map Change.gist =
    (newChange? limit' links.unplaced e.unplaced).map Change.gist := by
  rw [newChange?, newChange?, Links.ofNew?_unplaced]
  cases links.ofNew? e with
  | none =>
    have hjoins : links.unplaced.joinsNew = links.joinsNew :=
      funext (Links.joinsNew_unplaced links)
    simp only [Option.map_none, Entry.parent_unplaced, hjoins]
    split
    · exact congrArg some (gist_added limit limit' e)
    · rfl
  | some l => rfl

/-- Apart from texts and positions, the same changes are found without positions. -/
lemma classify_gist : (classify limit links old new).map Change.gist =
    (classify limit' links.unplaced old.unplaced new.unplaced).map Change.gist := by
  rw [classify, classify, Entry.preorder_unplaced, Entry.preorder_unplaced, ← List.map_tail,
    ← List.map_tail, List.map_append, List.map_append, List.map_filterMap, List.map_filterMap,
    List.map_filterMap, List.map_filterMap, List.filterMap_map, List.filterMap_map]
  congr 2
  · funext e
    exact oldChange?_gist limit limit' links e
  · funext e
    exact newChange?_gist limit limit' links e

lemma oldChange?_cut :
    oldChange? limit links e = (oldChange? none links e).map (Change.cut limit) := by
  rw [oldChange?, oldChange?]
  cases links.ofOld? e with
  | none =>
    simp only
    split <;> rfl
  | some l =>
    simp only [Option.map_map]
    rfl

lemma newChange?_cut :
    newChange? limit links e = (newChange? none links e).map (Change.cut limit) := by
  rw [newChange?, newChange?]
  cases links.ofNew? e with
  | none =>
    simp only
    split <;> rfl
  | some l => rfl

/-- The limit cuts the texts of the changes and does nothing else. -/
lemma classify_cut :
    classify limit links old new = (classify none links old new).map (Change.cut limit) := by
  rw [classify, classify, List.map_append, List.map_filterMap, List.map_filterMap]
  congr 2
  · funext e
    exact oldChange?_cut limit links e
  · funext e
    exact newChange?_cut limit links e

end

/-! ## Comparisons -/

namespace Differ

variable {d e : Differ} {old new old' new' : Outline} {fullText fullText' : Bool}

/-- What is reported of two outlines is what is reported in full, with the texts cut. -/
lemma changes_cut (d : Differ) (fullText : Bool) (old new : Outline) :
    (d.diffOutlines fullText old new).changes =
      (d.diffOutlines true old new).changes.map (Change.cut (d.limit fullText)) := by
  -- the order of the changes does not look at the texts
  have hsort := mergeSort_map Change.notAfter (f := Change.cut (d.limit fullText)) fun a b => rfl
  rw [diffOutlines, diffOutlines]
  simp only
  rw [classify_cut, hsort]
  rfl

lemma changes_true_eq (hthreshold : d.threshold = e.threshold) :
    (d.diffOutlines true old new).changes = (e.diffOutlines true old new).changes := by
  rw [diffOutlines, diffOutlines, hthreshold]
  rfl

/-- Outlines that differ in positions alone have the same changes, up to order, texts and
positions. -/
lemma perm_gist (hthreshold : d.threshold = e.threshold) (hold : old.unplaced = old'.unplaced)
    (hnew : new.unplaced = new'.unplaced) :
    ((d.diffOutlines fullText old new).changes.map Change.gist).Perm
      ((e.diffOutlines fullText' old' new').changes.map Change.gist) := by
  have hfound : (classify (d.limit fullText) (linkTrees d.threshold (.root old) (.root new))
      (.root old) (.root new)).map Change.gist =
      (classify (e.limit fullText') (linkTrees e.threshold (.root old') (.root new'))
        (.root old') (.root new')).map Change.gist := by
    rw [classify_gist _ none, classify_gist (e.limit fullText') none, ← linkTrees_unplaced,
      ← linkTrees_unplaced, ← Entry.root_unplaced, ← Entry.root_unplaced, ← Entry.root_unplaced,
      ← Entry.root_unplaced, hold, hnew, hthreshold]
  exact ((List.mergeSort_perm _ _).map _).trans
    ((List.Perm.of_eq hfound).trans ((List.mergeSort_perm _ _).map _).symm)

end Differ

namespace LanguageParser

/-- How many characters of a text are shown in the difference of two sources. -/
def limit (p : LanguageParser) (fullText : Option Bool) : Option Int :=
  p.differ.limit (fullText.getD p.settings.diff.fullText)

/-- The difference of two sources that have a root. -/
lemma outcome_diff {p : LanguageParser} {old new : List UInt8} {a b : Node}
    (ha : p.parse old = some a) (hb : p.parse new = some b) (fullText : Option Bool) :
    (p.diff old new fullText).outcome =
      .ok (p.differ.diffOutlines (fullText.getD p.settings.diff.fullText) (.ofNode p.schema a)
        (.ofNode p.schema b)) := by
  have hold : p.root old "diff" "old" = .result a := by rw [root, ha]
  have hnew : p.root new "diff" "new" = .result b := by rw [root, hb]
  rw [diff, hold, hnew]
  rfl

end LanguageParser

/-- **Settings for presentation and positions have no influence on what is reported.**  Two parsers
may differ in all settings but the threshold: in where texts are cut, in whether they are cut at
all, and in the limit of their extractors.  For trees that agree in everything but their positions
they report the same changes up to order, texts and positions; for the same trees the order is the
same, too, and a text that was cut is the cut of the text that is shown in full. -/
theorem same_report_of_unplaced_eq {p q : LanguageParser} (hschema : p.schema = q.schema)
    (hthreshold : p.settings.diff.threshold = q.settings.diff.threshold)
    (old new old' new' : List UInt8) {a b a' b' : Node}
    (ha : p.parse old = some a) (hb : p.parse new = some b)
    (ha' : q.parse old' = some a') (hb' : q.parse new' = some b')
    (hold : a.unplaced = a'.unplaced) (hnew : b.unplaced = b'.unplaced)
    (fullText fullText' : Option Bool) :
    ∃ d d' : Diff, (p.diff old new fullText).outcome = .ok d ∧
      (q.diff old' new' fullText').outcome = .ok d' ∧
      (d.changes.map Change.gist).Perm (d'.changes.map Change.gist) ∧
      (a = a' → b = b' → d.changes.map Change.untexted = d'.changes.map Change.untexted ∧
        (q.limit fullText' = none → d.changes = d'.changes.map (Change.cut (p.limit fullText)))) := by
  refine ⟨_, _, LanguageParser.outcome_diff ha hb fullText,
    LanguageParser.outcome_diff ha' hb' fullText', ?_, ?_⟩
  · have holds : (Outline.ofNode p.schema a).unplaced = (Outline.ofNode q.schema a').unplaced := by
      rw [← Outline.ofNode_unplaced, ← Outline.ofNode_unplaced, hold, hschema]
    have hnews : (Outline.ofNode p.schema b).unplaced = (Outline.ofNode q.schema b').unplaced := by
      rw [← Outline.ofNode_unplaced, ← Outline.ofNode_unplaced, hnew, hschema]
    exact Differ.perm_gist hthreshold holds hnews
  · rintro rfl rfl
    rw [Differ.changes_cut p.differ, Differ.changes_cut q.differ, hschema,
      Differ.changes_true_eq (d := p.differ) (e := q.differ) hthreshold]
    refine ⟨?_, fun hfull => ?_⟩
    · rw [List.map_map, List.map_map]
      rfl
    · have hcut : Change.cut (q.differ.limit (fullText'.getD q.settings.diff.fullText)) = id := by
        funext c
        exact (congrArg c.cut hfull).trans c.cut_none
      rw [hcut, List.map_id]
      rfl

/-- A parser that knows one source of each of two programs. -/
def LanguageParser.ofPrograms (settings : Settings) (old new : Node) : LanguageParser :=
  ⟨"mini", .functions, settings, fun source => some (if source.isEmpty then old else new)⟩

/-- Settings that show the start of a text, and extract the start of each node. -/
def Settings.showing (truncateLength maxTextLength : Int) : Settings :=
  ⟨.usual, ⟨.one, truncateLength, false⟩, ⟨some maxTextLength⟩, .usual⟩

/-- Two functions, the second of which stands on a line of its own. -/
def Node.twoLines : Node :=
  .programOf [.ofFunction "f" "1", { Node.ofFunction "g" "2" with start := ⟨1, 0⟩, stop := ⟨1, 8⟩ }]

/-- A program whose functions are placed on two lines is compared with one in which a body was
changed: briefly, and in full with all positions at the start. -/
theorem same_report_twoLines :
    Node.twoLines.unplaced = Node.twoFunctions.unplaced ∧
    ∃ d d' : Diff,
      ((LanguageParser.ofPrograms (.showing 9 1) .twoLines
        (.programOf [.ofFunction "f" "1", .ofFunction "g" "3"])).diff [] [0] none).outcome = .ok d ∧
      ((LanguageParser.ofPrograms (.showing 100 5) .twoFunctions
        (.programOf [.ofFunction "f" "1", .ofFunction "g" "3"])).diff [] [0] (some true)).outcome =
          .ok d' ∧
      (d.changes.map Change.gist).Perm (d'.changes.map Change.gist) := by
  have hplaces : Node.twoLines.unplaced = Node.twoFunctions.unplaced := rfl
  obtain ⟨d, d', hd, hd', hperm, -⟩ := same_report_of_unplaced_eq
    (p := .ofPrograms (.showing 9 1) .twoLines
      (.programOf [.ofFunction "f" "1", .ofFunction "g" "3"]))
    (q := .ofPrograms (.showing 100 5) .twoFunctions
      (.programOf [.ofFunction "f" "1", .ofFunction "g" "3"]))
    rfl rfl [] [0] [] [0] rfl rfl rfl rfl hplaces rfl none (some true)
  exact ⟨hplaces, d, d', hd, hd', hperm⟩

end TreeDiff
