/-
# Places in YAML documents

A document is read from left to right.  The cursor knows what is left to read, and where it stands;
a fault in the document is reported with that place.
-/
import TreeDiff.Text.Quoted

namespace TreeDiff.Yaml

/-- A place in a document, line and column counted from 0. -/
structure Mark where
  line : Nat
  column : Nat
deriving DecidableEq, Repr, Inhabited

/-- The text of a place in a file. -/
def Mark.text (file : String) (m : Mark) : String :=
  s!"  in \"{file}\", line {m.line + 1}, column {m.column + 1}"

/-- What is wrong in a document. -/
structure Fault where
  /-- What was being read, and where that started. -/
  context : Option (String × Option Mark)
  problem : String
  place : Mark
deriving DecidableEq, Repr

namespace Fault

/-- A fault while something was read. -/
def during (context : String) (start : Mark) (problem : String) (place : Mark) : Fault :=
  ⟨some (context, some start), problem, place⟩

/-- A fault on its own. -/
def alone (problem : String) (place : Mark) : Fault := ⟨none, problem, place⟩

/-- The text of a fault in a file.  The start of the context is left out when it is the place of the
fault. -/
def message (file : String) (f : Fault) : String :=
  let context := match f.context with
    | none => []
    | some (what, none) => [what]
    | some (what, some start) => if start = f.place then [what] else [what, start.text file]
  "\n".intercalate (context ++ [f.problem, f.place.text file])

end Fault

/-- Whether a character ends a line. -/
def isBreak (c : Char) : Bool := c = '\n' || c = '\u0085' || c = '\u2028' || c = '\u2029'

/-- The character that stands for the end of a document. -/
def endMark : Char := '\x00'

/-- Whether a line or the document ends at a character. -/
def isLineEnd (c : Char) : Bool := c = endMark || isBreak c

/-- Whether a word that may be followed by blanks ends at a character. -/
def isSpaceOrEnd (c : Char) : Bool := c = ' ' || isLineEnd c

/-- Whether an indicator ends at a character. -/
def isGap (c : Char) : Bool := c = '\t' || isSpaceOrEnd c

/-- The rest of a document, with its place. -/
structure Cursor where
  rest : List Char
  index : Nat
  line : Nat
  column : Nat
deriving Repr

namespace Cursor

/-- The start of a document. -/
def ofChars (chars : List Char) : Cursor := ⟨chars, 0, 0, 0⟩

/-- The place of the cursor. -/
def mark (c : Cursor) : Mark := ⟨c.line, c.column⟩

/-- The next character. -/
def head (c : Cursor) : Char := c.rest.headD endMark

/-- The character after `n` others. -/
def peek (c : Cursor) (n : Nat) : Char := (c.rest.drop n).headD endMark

/-- The cursor after the next character.  A byte order mark has no width. -/
def step (c : Cursor) : Cursor :=
  match c.rest with
  | [] => c
  | ch :: rest =>
    if isBreak ch then ⟨rest, c.index + 1, c.line + 1, 0⟩
    else if ch = '\ufeff' then ⟨rest, c.index + 1, c.line, c.column⟩
    else ⟨rest, c.index + 1, c.line, c.column + 1⟩

/-- The cursor after `n` characters. -/
def skip (c : Cursor) : Nat → Cursor
  | 0 => c
  | n + 1 => c.step.skip n

/-- The characters of a class at the cursor, and the cursor after them. -/
def takeWhile (c : Cursor) (p : Char → Bool) : List Char × Cursor :=
  let taken := c.rest.takeWhile p
  (taken, c.skip taken.length)

/-- The cursor after characters of a class. -/
def skipWhile (c : Cursor) (p : Char → Bool) : Cursor := (c.takeWhile p).2

/-- The line break at the cursor, as it counts in texts, and the cursor after it. -/
def takeBreak (c : Cursor) : List Char × Cursor :=
  if c.head = '\n' || c.head = '\u0085' then (['\n'], c.step)
  else if isBreak c.head then ([c.head], c.step)
  else ([], c)

/-- The cursor after blanks and a comment. -/
def skipComment (c : Cursor) : Cursor :=
  let c := c.skipWhile (· = ' ')
  if c.head = '#' then c.skipWhile (fun ch => !isLineEnd ch) else c

/-- Whether a mark of three equal characters that separates documents stands at the cursor. -/
def atSeparator (c : Cursor) (mark : Char) : Bool :=
  c.rest.take 3 = [mark, mark, mark] && isGap (c.peek 3)

/-- Whether a line that separates documents starts at the cursor. -/
def atAnySeparator (c : Cursor) : Bool := c.atSeparator '-' || c.atSeparator '.'

end Cursor

/-- A character as it is shown in messages. -/
def shownChar (c : Char) : String := Text.quoted (String.singleton c)

end TreeDiff.Yaml
