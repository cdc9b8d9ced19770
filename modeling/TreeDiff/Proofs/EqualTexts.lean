/-
# Only equal texts are wholly similar

Similarity is a score: it does not depend on the order of the two texts, lies between zero and one,
and is one for equal texts only.  For the last point it is not enough to count: what is matched is a
text that both texts contain with gaps, and a text that is as long as the one that contains it has
no gaps.

With threshold one, two nodes with different names are therefore joined by similarity only if the
texts by which they are compared are the same.  A threshold compares rounded numbers, but a quotient
below one whose denominator is below 2⁵⁴ is rounded to a number below one.
-/
import TreeDiff.Proofs.Cutoffs
import TreeDiff.Proofs.Soundness

namespace TreeDiff

namespace Text

section

variable {left right : List Char} {a b : String} {r : Ratio}

/-! ## What is matched of different texts -/

/-- Only equal texts are matched as a whole. -/
lemma two_mul_matchedCount_lt (hne : left ≠ right) :
    2 * matchedCount left right < left.length + right.length := by
  obtain ⟨common, hleft, hright, hlength⟩ := exists_sublist_length_eq_matchedCount left right
  have hleftLength := hleft.length_le
  have hrightLength := hright.length_le
  by_contra hwhole
  have hcommonLeft : common = left := hleft.eq_of_length (by omega)
  have hcommonRight : common = right := hright.eq_of_length (by omega)
  exact hne (hcommonLeft.symm.trans hcommonRight)

lemma AreCharsOf.length_add (h : AreCharsOf a b left right) :
    left.length + right.length = a.length + b.length := by
  rcases h with ⟨rfl, rfl⟩ | ⟨rfl, rfl⟩
  · rw [String.length_toList, String.length_toList]
  · rw [String.length_toList, String.length_toList, Nat.add_comm]

lemma AreCharsOf.ne (h : AreCharsOf a b left right) (hne : a ≠ b) : left ≠ right := by
  rcases h with ⟨rfl, rfl⟩ | ⟨rfl, rfl⟩
  · exact fun heq => hne (String.toList_inj.1 heq)
  · exact fun heq => hne (String.toList_inj.1 heq.symm)

lemma orderedSimilarity_eq (passes : Ratio → Bool) (left right : List Char) :
    orderedSimilarity passes left right = .zero ∨
      orderedSimilarity passes left right = share (matchedCount left right) left right := by
  rw [orderedSimilarity]
  split_ifs
  · exact Or.inl rfl
  · exact Or.inl rfl
  · exact Or.inr rfl

/-- The similarity of different texts is a quotient below one, whose denominator is at most the
number of their characters. -/
lemma similarity_of_ne (passes : Ratio → Bool) (hne : a ≠ b) :
    (similarity passes a b).num < (similarity passes a b).den ∧
      (similarity passes a b).den ≤ a.length + b.length := by
  have hzero : Ratio.zero.num < Ratio.zero.den ∧ Ratio.zero.den ≤ a.length + b.length := by
    refine ⟨Nat.one_pos, Nat.one_le_iff_ne_zero.2 fun hlength => hne ?_⟩
    obtain ⟨ha, hb⟩ := Nat.add_eq_zero_iff.1 hlength
    rw [String.length_eq_zero_iff.1 ha, String.length_eq_zero_iff.1 hb]
  rcases similarity_cases a b with ⟨heq, -⟩ | ⟨-, h⟩ | ⟨left, right, hchars, -, h⟩
  · exact absurd heq hne
  · rw [h]
    exact hzero
  · rw [h]
    rcases orderedSimilarity_eq passes left right with hout | hout
    · rw [hout]
      exact hzero
    · rw [hout]
      exact ⟨two_mul_matchedCount_lt (hchars.ne hne), hchars.length_add.le⟩

/-! ## Quotients below one -/

lemma Ratio.value_lt_one (h : r.num < r.den) : r.value < 1 := by
  have hden : (0 : ℚ) < r.den := by exact_mod_cast Nat.zero_lt_of_lt h
  rw [Ratio.value, div_lt_one₀ hden]
  exact_mod_cast h

lemma Ratio.value_nonneg (r : Ratio) : 0 ≤ r.value :=
  div_nonneg (Nat.cast_nonneg _) (Nat.cast_nonneg _)

lemma Ratio.value_one : Ratio.one.value = 1 := by simp [Ratio.value, Ratio.one]

/-- The similarity of two texts is one if they are equal and less if they are not. -/
lemma value_similarity (passes : Ratio → Bool) (a b : String) :
    a = b ∧ (similarity passes a b).value = 1 ∨ a ≠ b ∧ (similarity passes a b).value < 1 := by
  by_cases hab : a = b
  · refine Or.inl ⟨hab, ?_⟩
    rw [similarity, if_pos hab, Ratio.value_one]
  · exact Or.inr ⟨hab, Ratio.value_lt_one (similarity_of_ne passes hab).1⟩

/-- A quotient below one is rounded to a number below one, as long as its denominator is below
2⁵⁴. -/
lemma reaches_one_eq_false (h : r.num < r.den) (hden : r.den < 2 ^ 54) :
    reaches .one r = false := by
  -- no quotient below one with such a denominator is greater than this one
  have hgreatest : reaches .one ⟨2 ^ 54 - 2, 2 ^ 54 - 1⟩ = false := by decide +kernel
  have hle : r.AtMost ⟨2 ^ 54 - 2, 2 ^ 54 - 1⟩ := by
    show r.num * (2 ^ 54 - 1) ≤ (2 ^ 54 - 2) * r.den
    omega
  rw [← Bool.not_eq_true] at hgreatest ⊢
  exact fun hreaches => hgreatest
    (isUpward_reaches .one r _ (Nat.zero_lt_of_lt h) (by decide) hle hreaches)

/-- The next denominator is too large: the quotient below one is rounded to one. -/
example : reaches .one ⟨2 ^ 54 - 1, 2 ^ 54⟩ = true := by decide +kernel

/-- Texts that reach the threshold one are equal, unless they are too long to tell. -/
lemma eq_of_reaches_one (h : reaches .one (similarity (reaches .one) a b) = true) :
    a = b ∨ 2 ^ 54 ≤ a.length + b.length := by
  by_contra hnot
  obtain ⟨hne, hlength⟩ := not_or.1 hnot
  obtain ⟨hlt, hden⟩ := similarity_of_ne (reaches .one) hne
  rw [reaches_one_eq_false hlt (by omega)] at h
  exact Bool.false_ne_true h

end

end Text

/-- What a link by similarity says of the two entries. -/
lemma Links.Sound.isRenaming {threshold : Binary64} {old new : Entry} {links : Links} {l : Link}
    (h : links.Sound threshold old new) (hl : l ∈ links)
    (hkind : l.kind = .similar ∨ l.kind = .similarMoved) : l.old.IsRenaming threshold l.new := by
  have hne : l ≠ ⟨old, new, .exact⟩ := by
    rintro rfl
    simp at hkind
  have hmeaning := (h.justified l hl hne).meaning
  rw [Link.Meaning] at hmeaning
  rcases hkind with hkind | hkind
  · rw [hkind] at hmeaning
    exact hmeaning.2
  · rw [hkind] at hmeaning
    exact hmeaning

/-- **Similarity is a score.**  Whether a cutoff compares exact quotients or rounded numbers, the
similarity of two texts is the same both ways, lies between zero and one, and is one exactly if the
texts are equal.  With threshold one, a link by similarity joins entries with different identifiers
whose compared texts are the same; it is only by rounding that texts of 2⁵⁴ characters can pass,
whose similarity is still less than one. -/
theorem similarity_isScore :
    (∀ (passes : Text.Ratio → Bool) (a b : String),
      Text.similarity passes a b = Text.similarity passes b a ∧
      0 ≤ (Text.similarity passes a b).value ∧ (Text.similarity passes a b).value ≤ 1 ∧
      ((Text.similarity passes a b).value = 1 ↔ a = b)) ∧
    ∀ (old new : Outline), ∀ l ∈ linkTrees .one (.root old) (.root new),
      l.kind = .similar ∨ l.kind = .similarMoved →
        l.old.identifier ≠ l.new.identifier ∧
        (l.old.outline.comparedText = l.new.outline.comparedText ∨
          (l.old.similarity .one l.new).value < 1 ∧
            2 ^ 54 ≤ l.old.outline.comparedText.length + l.new.outline.comparedText.length) := by
  constructor
  · intro passes a b
    refine ⟨Text.similarity_comm passes a b, Text.Ratio.value_nonneg _, ?_⟩
    rcases Text.value_similarity passes a b with ⟨hab, hvalue⟩ | ⟨hab, hvalue⟩
    · exact ⟨hvalue.le, iff_of_true hvalue hab⟩
    · exact ⟨hvalue.le, iff_of_false hvalue.ne hab⟩
  · intro old new l hl hkind
    have hrun := Links.Run.linkTrees (Entry.wellPlaced_root old) (Entry.wellPlaced_root new) .one
    obtain ⟨⟨a, b, hold, hnew, hne⟩, hreaches⟩ := hrun.sound.isRenaming hl hkind
    refine ⟨fun hsame => hne ?_, ?_⟩
    · rw [hold, hnew] at hsame
      exact Option.some.inj hsame
    · rcases Text.value_similarity (reaches .one) l.old.outline.comparedText
        l.new.outline.comparedText with ⟨hsame, -⟩ | ⟨hne, hvalue⟩
      · exact Or.inl hsame
      · exact Or.inr ⟨hvalue, (Text.eq_of_reaches_one hreaches).resolve_left hne⟩

/-- A module of one function, given by its name and its text. -/
def Outline.oneFunction (name text : String) : Outline :=
  ⟨"module", [], "", ⟨0, 0⟩, ⟨0, 0⟩, [⟨"function", [(.identifier, name)], text, ⟨0, 0⟩, ⟨0, 0⟩, []⟩]⟩

/-- A function that gets another name and keeps its text is joined by similarity. -/
theorem exists_similar_oneFunction :
    ∃ l ∈ linkTrees .one (.root (.oneFunction "f" "abab")) (.root (.oneFunction "g" "abab")),
      l.kind = .similar ∧ l.old.identifier ≠ l.new.identifier ∧
        l.old.outline.comparedText = l.new.outline.comparedText := by
  have hany : ((linkTrees .one (.root (.oneFunction "f" "abab"))
      (.root (.oneFunction "g" "abab"))).any fun l => l.kind = .similar &&
        l.old.outline.comparedText.length + l.new.outline.comparedText.length < 2 ^ 54) = true := by
    decide +kernel
  obtain ⟨l, hl, hshort⟩ := List.any_eq_true.1 hany
  rw [Bool.and_eq_true, decide_eq_true_eq, decide_eq_true_eq] at hshort
  obtain ⟨hne, htexts⟩ := similarity_isScore.2 _ _ l hl (Or.inl hshort.1)
  exact ⟨l, hl, hshort.1, hne, htexts.resolve_right fun hlong => by omega⟩

end TreeDiff
