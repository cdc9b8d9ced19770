/-
# Which limits cap a text

A limit caps a text if a text that is not longer is shown as it is, and a longer one by as many
characters as the limit says, followed by the marker.  Every limit that is not negative does so.  A
negative limit, which the settings accept like any other, counts from the end of the text: every
text is cut, however short, and what is shown is longer than the limit and the marker together.
-/
import TreeDiff.Parsing.Parser
import TreeDiff.Proofs.SingleSettings

namespace TreeDiff

namespace Text

variable {text shown : String} {limit : Int}

/-- What may be shown of a text under a limit: all of a text that is not longer, or the first
characters of a longer one and the marker. -/
def IsCapped (limit : Int) (text shown : String) : Prop :=
  shown = text ∧ (text.length : Int) ≤ limit ∨
    ∃ n : Nat, (n : Int) = limit ∧ n < text.length ∧
      shown = String.ofList (text.toList.take n) ++ cutMarker

/-- What is shown under a limit is at most as long as the limit and the marker. -/
lemma IsCapped.length_le (h : IsCapped limit text shown) :
    (shown.length : Int) ≤ limit + cutMarker.length := by
  rcases h with ⟨rfl, hlength⟩ | ⟨n, rfl, -, rfl⟩
  · omega
  · have htake : (text.toList.take n).length ≤ n := List.length_take_le n text.toList
    rw [String.length_append, String.length_ofList]
    omega

lemma truncate_of_length_le (h : (text.length : Int) ≤ limit) : truncate text (some limit) = text :=
  if_pos h

lemma truncate_of_lt_length {n : Nat} (h : n < text.length) :
    truncate text (some n) = String.ofList (text.toList.take n) ++ cutMarker :=
  if_neg (by omega)

/-- A negative limit leaves out as many characters as its magnitude says. -/
lemma truncate_of_neg (h : limit < 0) : truncate text (some limit) =
    String.ofList (text.toList.take (text.length - limit.natAbs)) ++ cutMarker := by
  cases limit with
  | ofNat n => exact absurd h (Int.not_lt.2 (Int.natCast_nonneg n))
  | negSucc n =>
    rw [truncate, if_neg (by omega), takeSigned, String.length_toList, Int.natAbs_negSucc]

/-- What is shown under a negative limit is too long: it ends in the marker. -/
lemma lt_length_truncate_of_neg (h : limit < 0) :
    limit + cutMarker.length < ((truncate text (some limit)).length : Int) := by
  rw [truncate_of_neg h, String.length_append]
  omega

/-- **A limit caps texts exactly if it is not negative.** -/
theorem isCapped_truncate_iff : IsCapped limit text (truncate text (some limit)) ↔ 0 ≤ limit := by
  constructor
  · intro h
    by_contra hneg
    exact absurd h.length_le (Int.not_le.2 (lt_length_truncate_of_neg (by omega)))
  · intro h
    obtain ⟨n, rfl⟩ := Int.eq_ofNat_of_zero_le h
    rcases Nat.lt_or_ge n text.length with hlt | hle
    · exact Or.inr ⟨n, rfl, hlt, truncate_of_lt_length hlt⟩
    · have hlength : (text.length : Int) ≤ n := by omega
      exact Or.inl ⟨truncate_of_length_le hlength, hlength⟩

lemma length_truncate_le_iff :
    ((truncate text (some limit)).length : Int) ≤ limit + cutMarker.length ↔ 0 ≤ limit := by
  constructor
  · intro h
    by_contra hneg
    exact absurd h (Int.not_le.2 (lt_length_truncate_of_neg (by omega)))
  · exact fun h => (isCapped_truncate_iff.2 h).length_le

end Text

/-- Every limit is accepted. -/
lemma ExtractionSettings.ofValue_toValue [Coercions] [Coercions.Lawful] (s : ExtractionSettings) :
    ofValue s.toValue = .ok s :=
  ofValue_eq_ok.2 ⟨_, rfl, setting_eq_ok.2 (Leaf.check_optional_integer s.maxTextLength)⟩

/-- **The text of an extracted node is capped exactly if the limit is not negative.**  The settings
accept every limit, also a negative one.  Without a limit the whole text is shown.  With a limit
that is not negative it is capped, and so no longer than the limit and the marker; with a negative
one it is neither, for every node: the last characters are left out, as many as the limit is below
zero, and the marker stands in their place. -/
theorem extract_text_isCapped_iff [Coercions] [Coercions.Lawful] (p : LanguageParser)
    (node : Node) :
    ExtractionSettings.ofValue p.settings.extraction.toValue = .ok p.settings.extraction ∧
    (p.settings.extraction.maxTextLength = none → (p.extractor.extract node).text = node.text) ∧
    ∀ limit, p.settings.extraction.maxTextLength = some limit →
      (Text.IsCapped limit node.text (p.extractor.extract node).text ↔ 0 ≤ limit) ∧
      (((p.extractor.extract node).text.length : Int) ≤ limit + Text.cutMarker.length ↔
        0 ≤ limit) ∧
      (limit < 0 → (p.extractor.extract node).text = String.ofList
        (node.text.toList.take (node.text.length - limit.natAbs)) ++ Text.cutMarker) := by
  refine ⟨ExtractionSettings.ofValue_toValue _, fun hnone => ?_, fun limit hlimit => ?_⟩
  · show Text.truncate node.text p.settings.extraction.maxTextLength = node.text
    rw [hnone, Text.truncate]
  · have htext : (p.extractor.extract node).text = Text.truncate node.text (some limit) := by
      rw [← hlimit]
      rfl
    rw [htext]
    exact ⟨Text.isCapped_truncate_iff, Text.length_truncate_le_iff, Text.truncate_of_neg⟩

/-- A parser that knows no grammar, with a limit for texts. -/
def LanguageParser.limited (limit : Int) : LanguageParser :=
  ⟨"python", ⟨none, []⟩, { Settings.usual with extraction := ⟨some limit⟩ }, fun _ => none⟩

/-- A node without children. -/
def Node.leaf (text : String) : Node := ⟨"module", text, true, ⟨0, 0⟩, ⟨0, 0⟩, none, []⟩

/-- Two characters of three are shown, and the marker. -/
theorem extract_text_limited_two :
    (LanguageParser.limited 2).settings.extraction.maxTextLength = some 2 ∧
    Text.IsCapped 2 "abc" ((LanguageParser.limited 2).extractor.extract (.leaf "abc")).text ∧
    ((LanguageParser.limited 2).extractor.extract (.leaf "abc")).text = "ab..." := by
  obtain ⟨-, -, hlimit⟩ := extract_text_isCapped_iff (.limited 2) (.leaf "abc")
  exact ⟨rfl, (hlimit 2 rfl).1.2 (by decide), by decide +kernel⟩

/-- **A negative limit is accepted and caps nothing.**  Of three characters two are shown under the
limit minus one, and the marker. -/
theorem not_isCapped_limited_negative :
    ExtractionSettings.ofValue (.map [(.text "max_text_length", .int (-1))]) =
      .ok (LanguageParser.limited (-1)).settings.extraction ∧
    ((LanguageParser.limited (-1)).extractor.extract (.leaf "abc")).text = "ab..." ∧
    ¬Text.IsCapped (-1) "abc" "ab..." ∧ ¬("ab...".length : Int) ≤ -1 + Text.cutMarker.length := by
  refine ⟨ExtractionSettings.ofValue_toValue ⟨some (-1)⟩, by decide +kernel, ?_, by decide +kernel⟩
  rintro (⟨-, hlength⟩ | ⟨n, hn, -, -⟩)
  · exact absurd hlength (by decide +kernel)
  · omega

end TreeDiff
