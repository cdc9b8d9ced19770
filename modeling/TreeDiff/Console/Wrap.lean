/-
# Texts in columns of limited width

A text is broken between words so that every line fits into a column.  A word that does not fit into
any line is cut, and an ellipsis shows that.
-/
import TreeDiff.Text.Blank
import TreeDiff.Text.Width

namespace TreeDiff.Column

/-- Whether a character separates words. -/
def isSpace (c : Char) : Bool := Text.isBlank c || ('\x1c' ≤ c && c ≤ '\x1f')

/-- Whether a line ends at a character when the width of a text is measured. -/
def isLineEnd (c : Char) : Bool :=
  ('\n' ≤ c && c ≤ '\r') || ('\x1c' ≤ c && c ≤ '\x1e') || c = '\u0085' || c = '\u2028' || c = '\u2029'

/-- The pieces of a text between separators. -/
def pieces (isSeparator : Char → Bool) : List Char → List (List Char)
  | [] => [[]]
  | c :: rest =>
    if isSeparator c then [] :: pieces isSeparator rest
    else match pieces isSeparator rest with
      | [] => [[c]]
      | piece :: more => (c :: piece) :: more

/-- Control characters that are never shown. -/
def isDropped (c : Char) : Bool :=
  c = '\x07' || c = '\x08' || c = '\x0b' || c = '\x0c' || c = '\r'

/-- The width that a text needs when it is not broken. -/
def naturalWidth (text : List Char) : Nat :=
  ((pieces isLineEnd text).map Text.width).foldl max 0

/-- The start of a text that fills a width.  A character of two columns that does not fit any more
is replaced by a blank. -/
def cut (width : Nat) : List Char → List Char
  | [] => List.replicate width ' '
  | c :: rest =>
    let w := Text.charWidth c
    if width = 0 then []
    else if w ≤ width then c :: cut (width - w) rest
    else List.replicate width ' '

/-- A line that fills a column; what is cut off leaves an ellipsis. -/
def fit (width : Nat) (line : List Char) : List Char :=
  let taken := Text.width line
  if taken ≤ width then line ++ List.replicate (width - taken) ' '
  else cut (width - 1) line ++ ['…']

/-- A part of a text from one break to the next: a word with the spaces around it. -/
structure Chunk where
  chars : List Char
  /-- The width without spaces at the end. -/
  core : Nat
  width : Nat

/-- A chunk of characters. -/
def Chunk.of (chars : List Char) : Chunk :=
  ⟨chars, Text.width (chars.reverse.dropWhile isSpace).reverse, Text.width chars⟩

/-- The chunks of a text: spaces go with the word before them, at the start with the first word. -/
def chunksFrom : List Char → List Char → List (List Char)
  | current, [] => if current.isEmpty then [] else [current.reverse]
  | current, c :: rest =>
    let startsWord := !isSpace c && match current with
      | [] => false
      | last :: before => isSpace last && before.any fun b => !isSpace b
    if startsWord then current.reverse :: chunksFrom [c] rest
    else chunksFrom (c :: current) rest

/-- The chunks of a text. -/
def chunks (text : List Char) : List Chunk := (chunksFrom [] text).map Chunk.of

/-- The lines that chunks make up.  `line` is the line so far and `offset` its width; a chunk that
does not fit into the rest of the line starts a new one. -/
def breakLines (width : Nat) (line : List Char) (offset : Nat) : List Chunk → List (List Char)
  | [] => [line]
  | c :: rest =>
    if offset + c.core ≤ width then breakLines width (line ++ c.chars) (offset + c.width) rest
    else if line.isEmpty then breakLines width c.chars c.width rest
    else line :: breakLines width c.chars c.width rest

/-- A line without spaces at its end that do not fit. -/
def withoutOverhang (width : Nat) (line : List Char) : List Char :=
  let excess := line.length - width
  let spaces := (line.reverse.takeWhile isSpace).length
  line.take (line.length - min excess spaces)

/-- Tabs as blanks up to the next eighth column. -/
def expandTabs (offset : Nat) : List Char → List Char
  | [] => []
  | c :: rest =>
    if c = '\t' then
      let next := (offset / 8 + 1) * 8
      List.replicate (next - offset) ' ' ++ expandTabs next rest
    else c :: expandTabs (offset + Text.charWidth c) rest

/-- The lines of a text in a column, each as wide as the column. -/
def lines (width : Nat) (text : List Char) : List (List Char) :=
  (pieces (· = '\n') text).flatMap fun piece =>
    (breakLines width [] 0 (chunks (expandTabs 0 piece))).map fun line =>
      fit width (withoutOverhang width line)

end TreeDiff.Column
