/-
# Texts in YAML documents

A text stands in a document plainly, in single or double quotes, or as a block of indented lines.
Line breaks inside it are folded into blanks, except in blocks that keep them.
-/
import TreeDiff.Json.Parser
import TreeDiff.Yaml.Token

namespace TreeDiff.Yaml

/-- Why no token can be read: the document is at fault, or it asks for a character that does not
exist. -/
inductive ScanFault where
  | fault (fault : Fault)
  /-- A character beyond the last code point; `huge` when its number has more than 31 bits. -/
  | noCharacter (huge : Bool)
deriving DecidableEq, Repr

/-- A refusal while something is read. -/
def refuse {α : Type} (context : String) (start : Mark) (problem : String) (place : Mark) :
    Except ScanFault α :=
  .error (.fault (.during context start problem place))

/-- Whether a character is a letter or a digit of ASCII, a hyphen or an underscore. -/
def isWordChar (c : Char) : Bool := c.isAlphanum || c = '-' || c = '_'

/-- A line break with the breaks after it, folded: a single break becomes a blank. -/
def folded (first breaks : List Char) : List Char :=
  (if first ≠ ['\n'] then first else if breaks.isEmpty then [' '] else []) ++ breaks

/-! ## Quoted texts -/

/-- The line breaks at the cursor, with the blanks between them passed over. -/
def quotedBreaks (start : Mark) : Nat → Cursor → List Char → Except ScanFault (List Char × Cursor)
  | 0, c, read => .ok (read, c)
  | fuel + 1, c, read =>
    if c.atAnySeparator then
      refuse "while scanning a quoted scalar" start "found unexpected document separator" c.mark
    else
      let c := c.skipWhile fun ch => ch = ' ' || ch = '\t'
      if isBreak c.head then
        let (text, c) := c.takeBreak
        quotedBreaks start fuel c (read ++ text)
      else .ok (read, c)

/-- What single characters after a backslash stand for. -/
def escapes : List (Char × Char) :=
  [('0', '\x00'), ('a', '\x07'), ('b', '\x08'), ('t', '\t'), ('\t', '\t'), ('n', '\n'), ('v', '\x0b'),
   ('f', '\x0c'), ('r', '\r'), ('e', '\x1b'), (' ', ' '), ('"', '"'), ('\\', '\\'), ('/', '/'),
   ('N', '\u0085'), ('_', '\u00a0'), ('L', '\u2028'), ('P', '\u2029')]

/-- How many hexadecimal digits follow a character after a backslash. -/
def escapeWidths : List (Char × Nat) := [('x', 2), ('u', 4), ('U', 8)]

/-- The character of a code point; a lone surrogate has none and becomes U+FFFD. -/
def charOfCode (code : Nat) : Except ScanFault Char :=
  if code < 0x110000 then .ok (Json.charOf code) else .error (.noCharacter (0x80000000 ≤ code))

/-- The character whose code point is given by hexadecimal digits at the cursor. -/
def codeEscape (start : Mark) (width : Nat) (c : Cursor) : Except ScanFault (Char × Cursor) :=
  let digits := (List.range width).map fun k => c.peek k
  match digits.find? fun ch => (Json.hexDigit? ch).isNone with
  | some ch =>
    refuse "while scanning a double-quoted scalar" start
      s!"expected escape sequence of {width} hexadecimal numbers, but found {shownChar ch}" c.mark
  | none =>
    let code := digits.foldl (fun n ch => n * 16 + (Json.hexDigit? ch).getD 0) 0
    (charOfCode code).map fun ch => (ch, c.skip width)

/-- What an escape stands for; the cursor is after the backslash. -/
def escape (start : Mark) (c : Cursor) : Except ScanFault (List Char × Cursor) :=
  match escapes.lookup c.head with
  | some ch => .ok ([ch], c.step)
  | none =>
    match escapeWidths.lookup c.head with
    | some width => (codeEscape start width c.step).map fun (ch, c) => ([ch], c)
    | none =>
      if isBreak c.head then quotedBreaks start (c.rest.length + 1) c.step []
      else refuse "while scanning a double-quoted scalar" start
        s!"found unknown escape character {shownChar c.head}" c.mark

/-- Blanks inside quotes, with the line breaks that follow them. -/
def quotedSpaces (start : Mark) (c : Cursor) : Except ScanFault (List Char × Cursor) :=
  let (blanks, c) := c.takeWhile fun ch => ch = ' ' || ch = '\t'
  if c.rest.isEmpty then
    refuse "while scanning a quoted scalar" start "found unexpected end of stream" c.mark
  else if isBreak c.head then
    let (first, c) := c.takeBreak
    (quotedBreaks start (c.rest.length + 1) c []).map fun (breaks, c) => (folded first breaks, c)
  else .ok (blanks, c)

/-- The text inside quotes, from the cursor to the closing quote.  Every round reads a character or
refuses, so the length of the document bounds the rounds. -/
def quotedText (double : Bool) (start : Mark) :
    Nat → Cursor → List Char → Except ScanFault (List Char × Cursor)
  | 0, c, read => .ok (read, c)
  | fuel + 1, c, read =>
    let ch := c.head
    if !double && ch = '\'' && c.peek 1 = '\'' then quotedText double start fuel (c.skip 2) (read ++ ['\''])
    else if ch = (if double then '"' else '\'') then .ok (read, c.step)
    else if c.rest.isEmpty || ch = ' ' || ch = '\t' || isBreak ch then do
      let (text, c) ← quotedSpaces start c
      quotedText double start fuel c (read ++ text)
    else if double && ch = '\\' then do
      let (text, c) ← escape start c.step
      quotedText double start fuel c (read ++ text)
    else quotedText double start fuel c.step (read ++ [ch])

/-- The quoted text at the cursor. -/
def scanQuoted (double : Bool) (c : Cursor) : Except ScanFault (Token × Cursor) := do
  let (text, after) ← quotedText double c.mark (c.rest.length + 1) c.step []
  pure (⟨.scalar (String.ofList text) false, c.mark, after.mark⟩, after)

/-! ## Blocks -/

/-- What becomes of the line breaks at the end of a block. -/
inductive Chomping where
  | strip
  | clip
  | keep
deriving DecidableEq, Repr

/-- The chomping that a character stands for. -/
def chomping? (c : Char) : Option Chomping :=
  if c = '+' then some .keep else if c = '-' then some .strip else none

/-- The indentation that the header of a block gives. -/
def blockIncrement (start : Mark) (c : Cursor) : Except ScanFault (Option Nat × Cursor) :=
  if c.head.isDigit then
    if c.head = '0' then
      refuse "while scanning a block scalar" start
        "expected indentation indicator in the range 1-9, but found 0" c.mark
    else .ok (some (c.head.toNat - '0'.toNat), c.step)
  else .ok (none, c)

/-- The indicators of a block, after the character that starts it: chomping and indentation in any
order. -/
def blockIndicators (start : Mark) (c : Cursor) :
    Except ScanFault (Chomping × Option Nat × Cursor) :=
  match chomping? c.head with
  | some chomping => (blockIncrement start c.step).map fun (n, c) => (chomping, n, c)
  | none => (blockIncrement start c).map fun (n, c) =>
    match n, chomping? c.head with
    | some n, some chomping => (chomping, some n, c.step)
    | n, _ => (.clip, n, c)

/-- The header of a block, after the character that starts it. -/
def blockHeader (start : Mark) (c : Cursor) :
    Except ScanFault (Chomping × Option Nat × Cursor) :=
  match blockIndicators start c with
  | .error e => .error e
  | .ok (chomping, increment, c) =>
    if isSpaceOrEnd c.head then .ok (chomping, increment, c)
    else refuse "while scanning a block scalar" start
      s!"expected chomping or indentation indicators, but found {shownChar c.head}" c.mark

/-- The rest of the line of the header. -/
def blockHeaderLine (start : Mark) (c : Cursor) : Except ScanFault Cursor :=
  let c := c.skipComment
  if isLineEnd c.head then .ok c.takeBreak.2
  else refuse "while scanning a block scalar" start
    s!"expected a comment or a line break, but found {shownChar c.head}" c.mark

/-- The breaks in front of a block without given indentation, with the largest column that blanks
reach in these lines. -/
def blockIndentation : Nat → Cursor → List Char → Nat → List Char × Nat × Cursor
  | 0, c, breaks, widest => (breaks, widest, c)
  | fuel + 1, c, breaks, widest =>
    if c.head = ' ' then blockIndentation fuel c.step breaks (max widest c.step.column)
    else if isBreak c.head then
      let (text, c) := c.takeBreak
      blockIndentation fuel c (breaks ++ text) widest
    else (breaks, widest, c)

/-- The cursor after blanks that belong to an indentation. -/
def skipIndent (indent : Nat) (c : Cursor) : Cursor :=
  c.skip ((c.rest.take (indent - c.column)).takeWhile (· = ' ')).length

/-- The breaks between two lines of a block. -/
def blockBreaks (indent : Nat) : Nat → Cursor → List Char → List Char × Cursor
  | 0, c, breaks => (breaks, c)
  | fuel + 1, c, breaks =>
    let c := skipIndent indent c
    if isBreak c.head then
      let (text, c) := c.takeBreak
      blockBreaks indent fuel c (breaks ++ text)
    else (breaks, c)

/-- Whether a line of a block starts with a character that is not blank. -/
def startsPlain (c : Cursor) : Bool := c.head ≠ ' ' && c.head ≠ '\t'

/-- The lines of a block: their text, the last line break, the breaks after it. -/
def blockLines (fold : Bool) (indent : Nat) :
    Nat → Cursor → List Char → List Char → List Char × List Char × List Char × Cursor
  | 0, c, breaks, read => (read, [], breaks, c)
  | fuel + 1, c, breaks, read =>
    let (line, after) := c.takeWhile fun ch => !isLineEnd ch
    let read := read ++ breaks ++ line
    let (lineBreak, after) := after.takeBreak
    let (breaks, next) := blockBreaks indent (after.rest.length + 1) after []
    if next.column = indent && !next.rest.isEmpty then
      let joint :=
        if fold && lineBreak = ['\n'] && startsPlain c && startsPlain next then
          if breaks.isEmpty then [' '] else []
        else lineBreak
      blockLines fold indent fuel next breaks (read ++ joint)
    else (read, lineBreak, breaks, next)

/-- The block at the cursor; `indent` is the indentation of what it stands in. -/
def scanBlock (fold : Bool) (indent : Int) (c : Cursor) : Except ScanFault (Token × Cursor) := do
  let start := c.mark
  let (chomping, increment, after) ← blockHeader start c.step
  let after ← blockHeaderLine start after
  let least := (max (indent + 1) 1).toNat
  let (breaks, indent, after) := match increment with
    | none =>
      let (breaks, widest, after) := blockIndentation (after.rest.length + 1) after [] 0
      (breaks, max least widest, after)
    | some n =>
      let indent := least + n - 1
      let (breaks, after) := blockBreaks indent (after.rest.length + 1) after []
      (breaks, indent, after)
  let (text, lineBreak, breaks, after) :=
    if after.column = indent && !after.rest.isEmpty then
      blockLines fold indent (after.rest.length + 1) after breaks []
    else ([], [], breaks, after)
  let tail := match chomping with
    | .strip => []
    | .clip => lineBreak
    | .keep => lineBreak ++ breaks
  pure (⟨.scalar (String.ofList (text ++ tail)) false, start, after.mark⟩, after)

/-! ## Plain texts -/

/-- Whether a plain text ends in front of the next character. -/
def plainEnds (inFlow : Bool) (c d : Char) : Bool :=
  isGap c || (c = ':' && (isGap d || (inFlow && ",[]\x7b\x7d".toList.contains d))) ||
    (inFlow && ",?[]\x7b\x7d".toList.contains c)

/-- How many characters of a plain text stand in a row. -/
def plainLength (inFlow : Bool) : List Char → Nat
  | [] => 0
  | c :: rest =>
    if plainEnds inFlow c (rest.headD endMark) then 0 else plainLength inFlow rest + 1

/-- The breaks in a plain text after its first one; nothing when a line that separates documents
follows. -/
def plainBreaks : Nat → Cursor → List Char → Option (List Char) × Cursor
  | 0, c, breaks => (some breaks, c)
  | fuel + 1, c, breaks =>
    if c.head = ' ' then plainBreaks fuel c.step breaks
    else if isBreak c.head then
      let (text, c) := c.takeBreak
      if c.atAnySeparator then (none, c) else plainBreaks fuel c (breaks ++ text)
    else (some breaks, c)

/-- The blanks and breaks after a part of a plain text, whether a new line was begun, and the cursor
after them; nothing when the text cannot go on. -/
def plainSpaces (c : Cursor) : List Char × Bool × Cursor :=
  let (blanks, c) := c.takeWhile (· = ' ')
  if isBreak c.head then
    let (first, c) := c.takeBreak
    if c.atAnySeparator then ([], true, c)
    else
      match plainBreaks (c.rest.length + 1) c [] with
      | (none, c) => ([], true, c)
      | (some breaks, c) => (folded first breaks, true, c)
  else (blanks, false, c)

/-- A plain text that was read: its characters, its end, whether the cursor stands on a new line,
and the cursor. -/
structure PlainText where
  text : List Char
  stop : Mark
  onNewLine : Bool
  after : Cursor

/-- Reads a plain text on from the cursor; `spaces` is what stands before it. -/
def plainText (inFlow : Bool) (indent : Int) : Nat → Cursor → List Char → PlainText → PlainText
  | 0, _, _, read => read
  | fuel + 1, c, spaces, read =>
    let width := plainLength inFlow c.rest
    if c.head = '#' || width = 0 then read
    else
      let part := c.rest.take width
      let stop := c.skip width
      let (next, onNewLine, after) := plainSpaces stop
      let read := ⟨read.text ++ spaces ++ part, stop.mark, onNewLine, after⟩
      if next.isEmpty || after.head = '#' || (!inFlow && (after.column : Int) < indent) then read
      else plainText inFlow indent fuel after next read

/-- The plain text at the cursor, and whether the cursor stands on a new line after it; `indent` is
the indentation of what it stands in. -/
def scanPlain (inFlow : Bool) (indent : Int) (c : Cursor) : Token × Bool × Cursor :=
  let read := plainText inFlow (indent + 1) (c.rest.length + 1) c [] ⟨[], c.mark, false, c⟩
  (⟨.scalar (String.ofList read.text) true, c.mark, read.stop⟩, read.onNewLine, read.after)

end TreeDiff.Yaml
