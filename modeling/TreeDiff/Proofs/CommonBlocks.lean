/-
# Common blocks

The table of common endings is kept row by row: after some characters of the left text, an entry of
the row says how many characters just read also end at one place of the right text.  Every block
that is read off the table therefore occurs in both texts.  The blocks that are matched lie apart
and in the same order in both, so together they are a text that is contained in both texts with
gaps.
-/
import Mathlib.Data.List.Basic
import Mathlib.Data.Multiset.UnionInter
import Mathlib.Tactic.Lemma
import TreeDiff.Text.Similarity

namespace TreeDiff.Text

/-! ## The table of common endings -/

/-- Whether the last `size` characters of two texts are the same. -/
def EndAlike (size : Nat) (left right : List Char) : Prop :=
  ∃ block : List Char, block.length = size ∧ block <:+ left ∧ block <:+ right

lemma endAlike_zero (left right : List Char) : EndAlike 0 left right :=
  ⟨[], rfl, List.nil_suffix, List.nil_suffix⟩

lemma EndAlike.concat {size : Nat} {left right : List Char} (h : EndAlike size left right)
    (c : Char) : EndAlike (size + 1) (left ++ [c]) (right ++ [c]) := by
  obtain ⟨block, rfl, ⟨before, rfl⟩, ⟨before', rfl⟩⟩ := h
  refine ⟨block ++ [c], by simp, ⟨before, by simp⟩, ⟨before', by simp⟩⟩

/-- An entry of a row continues the entry of the row above that stands before it. -/
lemma getElem?_blockRow (c : Char) (corner : Nat) (right : List Char) (above : List Nat) (j : Nat) :
    (blockRow c corner right above)[j]? =
      right[j]?.map fun d => if c = d then (corner :: above).getD j 0 + 1 else 0 := by
  induction right generalizing corner above j with
  | nil => simp [blockRow]
  | cons d right ih =>
    rw [blockRow]
    cases j with
    | zero => simp
    | succ j =>
      simp only [List.getElem?_cons_succ, ih]
      cases above with
      | nil => cases j <;> simp
      | cons _ _ => simp

/-- The row after some characters of the left text. -/
def IsRow (left right : List Char) (row : List Nat) : Prop :=
  ∀ j size, row[j]? = some size → EndAlike size left (right.take (j + 1))

lemma isRow_replicate (left right : List Char) (n : Nat) :
    IsRow left right (List.replicate n 0) := by
  intro j size hsize
  obtain rfl : size = 0 := List.eq_of_mem_replicate (List.mem_of_getElem? hsize)
  exact endAlike_zero _ _

/-- What stands before an entry of a row, at its edge too. -/
lemma IsRow.endAlike {left right : List Char} {row : List Nat} (h : IsRow left right row)
    (j : Nat) :
    EndAlike ((0 :: row).getD j 0) left (right.take j) := by
  cases j with
  | zero => exact endAlike_zero _ _
  | succ j =>
    rw [List.getD_cons_succ, List.getD_eq_getElem?_getD]
    cases hsize : row[j]? with
    | none => exact endAlike_zero _ _
    | some size => exact h j size hsize

/-- **The row is kept up** when a character of the left text is read. -/
lemma IsRow.blockRow {left right : List Char} {row : List Nat} (h : IsRow left right row)
    (c : Char) : IsRow (left ++ [c]) right (blockRow c 0 right row) := by
  intro j size hsize
  rw [getElem?_blockRow, Option.map_eq_some_iff] at hsize
  obtain ⟨d, hd, rfl⟩ := hsize
  obtain ⟨hj, rfl⟩ := List.getElem?_eq_some_iff.1 hd
  split_ifs with hc
  · rw [← List.take_append_getElem hj, ← hc]
    exact (h.endAlike j).concat c
  · exact endAlike_zero _ _

/-! ## Blocks that occur in both texts -/

/-- Whether a block occurs in both texts where it says. -/
def Block.IsCommon (b : Block) (left right : List Char) : Prop :=
  ∃ common before after before' after' : List Char,
    left = before ++ common ++ after ∧ right = before' ++ common ++ after' ∧
    before.length = b.left ∧ before'.length = b.right ∧ common.length = b.size

lemma isCommon_empty (left right : List Char) : Block.IsCommon ⟨0, 0, 0⟩ left right :=
  ⟨[], [], left, [], right, rfl, rfl, rfl, rfl, rfl⟩

/-- A common ending is a block. -/
lemma EndAlike.isCommon {size i j : Nat} {left right : List Char} (hi : i ≤ left.length)
    (hj : j ≤ right.length) (h : EndAlike size (left.take i) (right.take j)) :
    Block.IsCommon ⟨i - size, j - size, size⟩ left right := by
  obtain ⟨common, rfl, ⟨before, hleft⟩, ⟨before', hright⟩⟩ := h
  have hlenLeft := congrArg List.length hleft
  have hlenRight := congrArg List.length hright
  rw [List.length_append, List.length_take_of_le hi] at hlenLeft
  rw [List.length_append, List.length_take_of_le hj] at hlenRight
  refine ⟨common, before, left.drop i, before', right.drop j, ?_, ?_, ?_, ?_, rfl⟩
  · rw [hleft, List.take_append_drop]
  · rw [hright, List.take_append_drop]
  · exact Nat.eq_sub_of_add_eq hlenLeft
  · exact Nat.eq_sub_of_add_eq hlenRight

/-- The best block of a row is one of the row, or the best one before. -/
lemma isCommon_bestInRow {left right : List Char} {i j : Nat} {row : List Nat} {best : Block}
    (hi : i < left.length) (hbest : best.IsCommon left right)
    (hrow : ∀ k size, row[k]? = some size → j + k < right.length ∧
      EndAlike size (left.take (i + 1)) (right.take (j + k + 1))) :
    (bestInRow i j row best).IsCommon left right := by
  induction row generalizing j best with
  | nil => exact hbest
  | cons size row ih =>
    rw [bestInRow]
    refine ih ?_ fun k size' hsize' => ?_
    · obtain ⟨hj, halike⟩ := hrow 0 size rfl
      split_ifs
      · exact halike.isCommon hi hj
      · exact hbest
    · have hnext := hrow (k + 1) size' hsize'
      rwa [Nat.add_right_comm j 1 k, Nat.add_assoc j k 1]

/-- The rows are read one after the other; the best block so far always occurs in both texts. -/
lemma isCommon_bestBlockFrom {read left right : List Char} {row : List Nat} {best : Block}
    (hrow : IsRow read right row) (hbest : best.IsCommon (read ++ left) right) :
    (bestBlockFrom right read.length left row best).IsCommon (read ++ left) right := by
  induction left generalizing read row best with
  | nil => exact hbest
  | cons c left ih =>
    rw [bestBlockFrom]
    have hsplit : read ++ c :: left = read ++ [c] ++ left := by simp
    have hnext := hrow.blockRow c
    have hi : read.length < (read ++ c :: left).length := by simp
    have hlength : (read ++ [c]).length = read.length + 1 := by simp
    have hread : (read ++ c :: left).take (read.length + 1) = read ++ [c] := by
      rw [hsplit, ← hlength, List.take_left]
    rw [hsplit, ← hlength]
    refine ih hnext ?_
    rw [← hsplit]
    refine isCommon_bestInRow hi hbest fun k size hsize => ?_
    rw [hread, Nat.zero_add]
    refine ⟨?_, hnext k size hsize⟩
    rw [getElem?_blockRow, Option.map_eq_some_iff] at hsize
    obtain ⟨d, hd, -⟩ := hsize
    exact (List.getElem?_eq_some_iff.1 hd).1

/-- **The longest block occurs in both texts.** -/
theorem isCommon_longestBlock (left right : List Char) :
    (longestBlock left right).IsCommon left right :=
  isCommon_bestBlockFrom (isRow_replicate [] right _) (isCommon_empty left right)

/-- A common block cuts both texts into what stands before it and what stands after it. -/
lemma Block.IsCommon.split {b : Block} {left right : List Char} (h : b.IsCommon left right) :
    ∃ common : List Char, common.length = b.size ∧
      left = left.take b.left ++ common ++ left.drop (b.left + b.size) ∧
      right = right.take b.right ++ common ++ right.drop (b.right + b.size) := by
  obtain ⟨common, before, after, before', after', rfl, rfl, hleft, hright, hsize⟩ := h
  refine ⟨common, hsize, ?_, ?_⟩
  · rw [← hleft, ← hsize, ← List.length_append, List.drop_left, List.append_assoc before,
      List.take_left, List.append_assoc before]
  · rw [← hright, ← hsize, ← List.length_append, List.drop_left, List.append_assoc before',
      List.take_left, List.append_assoc before']

/-! ## What is matched -/

/-- A block that is not empty leaves less of the left text on either side. -/
lemma length_sides_lt {left right : List Char} (hsize : (longestBlock left right).size ≠ 0) :
    (left.take (longestBlock left right).left).length < left.length ∧
      (left.drop ((longestBlock left right).left + (longestBlock left right).size)).length <
        left.length := by
  obtain ⟨common, hlength, hleft, -⟩ := (isCommon_longestBlock left right).split
  have hsum := congrArg List.length hleft
  simp only [List.length_append] at hsum
  omega

/-- The depth that is allowed makes no difference: no text has more blocks than characters. -/
lemma matchedWithin_congr {depth depth' : Nat} {left right : List Char}
    (h : left.length ≤ depth) (h' : left.length ≤ depth') :
    matchedWithin depth left right = matchedWithin depth' left right := by
  have hnil : ∀ (n : Nat) (right : List Char), matchedWithin n [] right = 0 := by
    intro n right
    cases n <;> rfl
  induction depth generalizing depth' left right with
  | zero =>
    obtain rfl := List.length_eq_zero_iff.1 (Nat.le_zero.1 h)
    rw [hnil, hnil]
  | succ depth ih =>
    cases depth' with
    | zero =>
      obtain rfl := List.length_eq_zero_iff.1 (Nat.le_zero.1 h')
      rw [hnil, hnil]
    | succ depth' =>
      rw [matchedWithin, matchedWithin]
      by_cases hsize : (longestBlock left right).size = 0
      · rw [if_pos hsize, if_pos hsize]
      · obtain ⟨hbefore, hafter⟩ := length_sides_lt hsize
        have hside : ∀ left' right' : List Char, left'.length < left.length →
            matchedWithin depth left' right' = matchedWithin depth' left' right' :=
          fun _ _ hlt => ih (by omega) (by omega)
        rw [if_neg hsize, if_neg hsize, hside _ _ hbefore, hside _ _ hafter]

/-- **The longest block, then what stands before it and what stands after it.** -/
theorem matchedCount_eq (left right : List Char) : matchedCount left right =
    let block := longestBlock left right
    if block.size = 0 then 0
    else matchedCount (left.take block.left) (right.take block.right) + block.size +
      matchedCount (left.drop (block.left + block.size))
        (right.drop (block.right + block.size)) := by
  rw [matchedCount, matchedWithin_congr (Nat.le_refl _) (Nat.le_succ _), matchedWithin]
  by_cases hsize : (longestBlock left right).size = 0
  · simp only [hsize, if_true]
  · obtain ⟨hbefore, hafter⟩ := length_sides_lt hsize
    simp only [hsize, if_false]
    rw [matchedCount, matchedCount, matchedWithin_congr hbefore.le (Nat.le_refl _),
      matchedWithin_congr hafter.le (Nat.le_refl _)]

/-- **What is matched is a text that both texts contain,** with gaps. -/
theorem exists_sublist_length_eq_matchedCount (left right : List Char) :
    ∃ common : List Char, common.Sublist left ∧ common.Sublist right ∧
      common.length = matchedCount left right := by
  generalize hn : left.length = n
  induction n using Nat.strongRecOn generalizing left right with
  | ind n ih =>
    subst hn
    rw [matchedCount_eq]
    by_cases hsize : (longestBlock left right).size = 0
    · exact ⟨[], List.nil_sublist _, List.nil_sublist _, by simp [hsize]⟩
    · obtain ⟨hbefore, hafter⟩ := length_sides_lt hsize
      obtain ⟨block, hblock, hleft, hright⟩ := (isCommon_longestBlock left right).split
      obtain ⟨before, hbeforeLeft, hbeforeRight, hbeforeCount⟩ := ih _ hbefore _ _ rfl
      obtain ⟨after, hafterLeft, hafterRight, hafterCount⟩ := ih _ hafter _ _ rfl
      refine ⟨before ++ block ++ after, ?_, ?_, ?_⟩
      · rw [hleft]
        exact (hbeforeLeft.append (List.Sublist.refl block)).append hafterLeft
      · rw [hright]
        exact (hbeforeRight.append (List.Sublist.refl block)).append hafterRight
      · simp only [hsize, if_false, List.length_append, hbeforeCount, hblock, hafterCount]

/-! ## What is shared -/

/-- **The shared characters are the intersection of the two texts as multisets.** -/
theorem sharedCount_eq_card (left right : List Char) :
    sharedCount left right = ((left : Multiset Char) ∩ (right : Multiset Char)).card := by
  rw [Multiset.coe_inter, Multiset.coe_card]
  induction left generalizing right with
  | nil => simp [sharedCount]
  | cons c left ih =>
    rw [sharedCount]
    by_cases hc : c ∈ right
    · rw [if_pos (List.contains_iff_mem.2 hc), ih, List.cons_bagInter_of_mem left hc,
        List.length_cons]
    · rw [if_neg fun h => hc (List.contains_iff_mem.1 h), ih, List.cons_bagInter_of_not_mem left hc]

/-- **No more characters are matched than are shared.** -/
theorem matchedCount_le_sharedCount (left right : List Char) :
    matchedCount left right ≤ sharedCount left right := by
  obtain ⟨common, hleft, hright, hlength⟩ := exists_sublist_length_eq_matchedCount left right
  rw [← hlength, sharedCount_eq_card, ← Multiset.coe_card]
  exact Multiset.card_le_card (Multiset.le_inter (Multiset.coe_le.2 hleft.subperm)
    (Multiset.coe_le.2 hright.subperm))

/-- No more characters are shared than the shorter text has. -/
theorem sharedCount_le_min (left right : List Char) :
    sharedCount left right ≤ min left.length right.length := by
  rw [sharedCount_eq_card]
  exact le_min (Multiset.card_le_card Multiset.inter_le_left)
    (Multiset.card_le_card Multiset.inter_le_right)

end TreeDiff.Text
