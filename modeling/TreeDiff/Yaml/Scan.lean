/-
# Splitting YAML documents into tokens

Indentation opens and closes collections, so the tokens that stand for that are made up while the
document is read.  A key is recognised only by the colon after it: any text on one line may turn out
to be one, and is remembered until the colon comes or cannot come any more.
-/
import TreeDiff.Yaml.Tag

namespace TreeDiff.Yaml

/-- A token that may turn out to start a key. -/
structure KeyCandidate where
  /-- The number of the token. -/
  token : Nat
  /-- Whether only a key can stand there. -/
  required : Bool
  index : Nat
  start : Mark
deriving Repr

/-- How far a document has been read. -/
structure Scanner where
  cursor : Cursor
  /-- All tokens so far. -/
  tokens : List Token
  /-- How many brackets and braces are open. -/
  flow : Int
  /-- The indentation of the innermost collection. -/
  indent : Int
  /-- The indentations of the collections around it. -/
  indents : List Int
  /-- Whether a key may start here. -/
  keyAllowed : Bool
  /-- At most one candidate for every count of open brackets and braces. -/
  candidates : List (Int × KeyCandidate)
  finished : Bool
deriving Repr

namespace Scanner

/-- The start of a document. -/
def start (chars : List Char) : Scanner :=
  ⟨.ofChars chars, [⟨.streamStart, ⟨0, 0⟩, ⟨0, 0⟩⟩], 0, -1, [], true, [], false⟩

/-- The place of the scanner. -/
def mark (s : Scanner) : Mark := s.cursor.mark

/-- The next character. -/
def head (s : Scanner) : Char := s.cursor.head

/-- Whether the scanner is inside brackets or braces. -/
def inFlow (s : Scanner) : Bool := s.flow ≠ 0

/-- The column of the scanner. -/
def column (s : Scanner) : Int := s.cursor.column

/-- A scanner with one more token. -/
def push (s : Scanner) (kind : TokenKind) (start stop : Mark) : Scanner :=
  { s with tokens := s.tokens ++ [⟨kind, start, stop⟩] }

/-- A scanner with a token put in front of the one with a number. -/
def insert (s : Scanner) (number : Nat) (kind : TokenKind) (place : Mark) : Scanner :=
  { s with tokens := s.tokens.take number ++ ⟨kind, place, place⟩ :: s.tokens.drop number }

/-- A scanner after an indicator of some characters. -/
def pushIndicator (s : Scanner) (kind : TokenKind) (width : Nat) : Scanner :=
  let after := s.cursor.skip width
  { s.push kind s.mark after.mark with cursor := after }

/-- A refusal at the place of the scanner. -/
def refuseHere {α : Type} (s : Scanner) (problem : String) : Except ScanFault α :=
  .error (.fault (.alone problem s.mark))

/-! ## Candidates for keys -/

/-- The fault of a place where only a key can stand. -/
def missingColon (s : Scanner) (k : KeyCandidate) : ScanFault :=
  .fault (.during "while scanning a simple key" k.start "could not find expected ':'" s.mark)

/-- Whether a candidate is too far away to become a key. -/
def expired (s : Scanner) (k : KeyCandidate) : Bool :=
  k.start.line ≠ s.cursor.line || 1024 < s.cursor.index - k.index

/-- A scanner without expired candidates. -/
def dropExpired (s : Scanner) : Except ScanFault Scanner :=
  match s.candidates.find? fun (_, k) => s.expired k && k.required with
  | some (_, k) => .error (s.missingColon k)
  | none => .ok { s with candidates := s.candidates.filter fun (_, k) => !s.expired k }

/-- A scanner without the candidate of the present brackets. -/
def dropCandidate (s : Scanner) : Except ScanFault Scanner :=
  match s.candidates.find? fun (level, k) => level = s.flow && k.required with
  | some (_, k) => .error (s.missingColon k)
  | none => .ok { s with candidates := s.candidates.filter fun (level, _) => level ≠ s.flow }

/-- A scanner that remembers the next token as a candidate, if a key may start here. -/
def saveCandidate (s : Scanner) : Except ScanFault Scanner :=
  if s.keyAllowed then do
    let required := !s.inFlow && s.indent = s.column
    let s ← s.dropCandidate
    let k : KeyCandidate := ⟨s.tokens.length, required, s.cursor.index, s.mark⟩
    pure { s with candidates := s.candidates ++ [(s.flow, k)] }
  else .ok s

/-! ## Indentation -/

/-- How many collections are closed by a column, and the indentations that are left. -/
def closing (column : Int) : Int → List Int → Nat × Int × List Int
  | indent, [] => (0, indent, [])
  | indent, outer :: rest =>
    if column < indent then
      let (n, left) := closing column outer rest
      (n + 1, left)
    else (0, indent, outer :: rest)

/-- A scanner after the collections that a column closes. -/
def unwind (s : Scanner) (column : Int) : Scanner :=
  if s.inFlow then s
  else
    let (n, indent, indents) := closing column s.indent s.indents
    { s with
      tokens := s.tokens ++ List.replicate n ⟨.blockEnd, s.mark, s.mark⟩
      indent, indents }

/-- Whether a column opens a collection. -/
def opens (s : Scanner) (column : Int) : Bool := s.indent < column

/-- A scanner inside a collection at a column. -/
def indentTo (s : Scanner) (column : Int) : Scanner :=
  { s with indents := s.indent :: s.indents, indent := column }

/-- A scanner inside a block collection at its column, which is opened if need be. -/
def openBlock (s : Scanner) (kind : TokenKind) : Scanner :=
  if s.opens s.column then (s.indentTo s.column).push kind s.mark s.mark else s

/-! ## Between tokens -/

/-- A scanner after blanks, comments and line breaks. -/
def skipBlanks (s : Scanner) : Scanner :=
  let first := if s.cursor.index = 0 && s.head = '\ufeff' then s.cursor.step else s.cursor
  let (cursor, broken) := skip (first.rest.length + 1) first false
  { s with cursor, keyAllowed := s.keyAllowed || (broken && !s.inFlow) }
where
  /-- The cursor after lines without tokens, and whether a line was begun. -/
  skip : Nat → Cursor → Bool → Cursor × Bool
    | 0, c, broken => (c, broken)
    | fuel + 1, c, broken =>
      let c := c.skipComment
      if isBreak c.head then skip fuel c.step true else (c, broken)

/-! ## Tokens -/

/-- The end of the document. -/
def fetchEnd (s : Scanner) : Except ScanFault Scanner := do
  let s ← (s.unwind (-1)).dropCandidate
  pure { s.push .streamEnd s.mark s.mark with keyAllowed := false, candidates := [], finished := true }

/-- A directive. -/
def fetchDirective (s : Scanner) : Except ScanFault Scanner := do
  let s ← (s.unwind (-1)).dropCandidate
  let (token, cursor) ← scanDirective s.cursor
  pure { s with tokens := s.tokens ++ [token], cursor, keyAllowed := false }

/-- A mark between documents. -/
def fetchSeparator (s : Scanner) (kind : TokenKind) : Except ScanFault Scanner := do
  let s ← (s.unwind (-1)).dropCandidate
  pure { s.pushIndicator kind 3 with keyAllowed := false }

/-- An opening bracket or brace. -/
def fetchOpening (s : Scanner) (kind : TokenKind) : Except ScanFault Scanner := do
  let s ← s.saveCandidate
  pure { s.pushIndicator kind 1 with flow := s.flow + 1, keyAllowed := true }

/-- A closing bracket or brace. -/
def fetchClosing (s : Scanner) (kind : TokenKind) : Except ScanFault Scanner := do
  let s ← s.dropCandidate
  pure { s.pushIndicator kind 1 with flow := s.flow - 1, keyAllowed := false }

/-- A comma between brackets or braces. -/
def fetchFlowEntry (s : Scanner) : Except ScanFault Scanner := do
  let s ← s.dropCandidate
  pure { s.pushIndicator .flowEntry 1 with keyAllowed := true }

/-- A hyphen in front of an item. -/
def fetchBlockEntry (s : Scanner) : Except ScanFault Scanner :=
  if !s.inFlow && !s.keyAllowed then s.refuseHere "sequence entries are not allowed here"
  else do
    let s ← (if s.inFlow then s else s.openBlock .blockSequenceStart).dropCandidate
    pure { s.pushIndicator .blockEntry 1 with keyAllowed := true }

/-- A question mark in front of a key. -/
def fetchKey (s : Scanner) : Except ScanFault Scanner :=
  if !s.inFlow && !s.keyAllowed then s.refuseHere "mapping keys are not allowed here"
  else do
    let s ← (if s.inFlow then s else s.openBlock .blockMappingStart).dropCandidate
    pure { s.pushIndicator .key 1 with keyAllowed := !s.inFlow }

/-- A scanner in which a candidate has become a key. -/
def confirmKey (s : Scanner) (k : KeyCandidate) : Scanner :=
  let s := { s with candidates := s.candidates.filter fun (level, _) => level ≠ s.flow }
  let s := s.insert k.token .key k.start
  if !s.inFlow && s.opens k.start.column then
    (s.indentTo k.start.column).insert k.token .blockMappingStart k.start
  else s

/-- A colon. -/
def fetchValue (s : Scanner) : Except ScanFault Scanner :=
  match s.candidates.find? fun (level, _) => level = s.flow with
  | some (_, k) => .ok { (s.confirmKey k).pushIndicator .value 1 with keyAllowed := false }
  | none =>
    if !s.inFlow && !s.keyAllowed then s.refuseHere "mapping values are not allowed here"
    else do
      let s ← (if s.inFlow then s else s.openBlock .blockMappingStart).dropCandidate
      pure { s.pushIndicator .value 1 with keyAllowed := !s.inFlow }

/-- A token that may start a key. -/
def fetchCandidate (s : Scanner) (scan : Cursor → Except ScanFault (Token × Cursor)) :
    Except ScanFault Scanner := do
  let s ← s.saveCandidate
  let (token, cursor) ← scan s.cursor
  pure { s with tokens := s.tokens ++ [token], cursor, keyAllowed := false }

/-- A block of lines. -/
def fetchBlock (s : Scanner) (fold : Bool) : Except ScanFault Scanner := do
  let s ← s.dropCandidate
  let (token, cursor) ← scanBlock fold s.indent s.cursor
  pure { s with tokens := s.tokens ++ [token], cursor, keyAllowed := true }

/-- A plain text. -/
def fetchPlain (s : Scanner) : Except ScanFault Scanner := do
  let s ← s.saveCandidate
  let (token, onNewLine, cursor) := scanPlain s.inFlow s.indent s.cursor
  pure { s with tokens := s.tokens ++ [token], cursor, keyAllowed := onNewLine }

/-- The characters that cannot start a plain text. -/
def indicators : List Char := "-?:,[]\x7b\x7d#&*!|>'\"%@\x60".toList

/-- Whether a plain text starts at the cursor. -/
def startsPlain (s : Scanner) : Bool :=
  (!isGap s.head && !indicators.contains s.head) ||
    (!isGap (s.cursor.peek 1) && (s.head = '-' || (!s.inFlow && (s.head = '?' || s.head = ':'))))

/-- Whether an indicator at the cursor stands alone. -/
def standsAlone (s : Scanner) : Bool := isGap (s.cursor.peek 1)

/-- The token at the cursor, blanks being passed over. -/
def fetchToken (s : Scanner) : Except ScanFault Scanner :=
  let c := s.head
  let atMargin := s.cursor.column = 0
  if s.cursor.rest.isEmpty then s.fetchEnd
  else if c = '%' && atMargin then s.fetchDirective
  else if atMargin && s.cursor.atSeparator '-' then s.fetchSeparator .documentStart
  else if atMargin && s.cursor.atSeparator '.' then s.fetchSeparator .documentEnd
  else if c = '[' then s.fetchOpening .flowSequenceStart
  else if c = '\x7b' then s.fetchOpening .flowMappingStart
  else if c = ']' then s.fetchClosing .flowSequenceEnd
  else if c = '\x7d' then s.fetchClosing .flowMappingEnd
  else if c = ',' then s.fetchFlowEntry
  else if c = '-' && s.standsAlone then s.fetchBlockEntry
  else if c = '?' && (s.inFlow || s.standsAlone) then s.fetchKey
  else if c = ':' && (s.inFlow || s.standsAlone) then s.fetchValue
  else if c = '*' then s.fetchCandidate (scanAnchor true)
  else if c = '&' then s.fetchCandidate (scanAnchor false)
  else if c = '!' then s.fetchCandidate scanTag
  else if c = '|' && !s.inFlow then s.fetchBlock false
  else if c = '>' && !s.inFlow then s.fetchBlock true
  else if c = '\'' then s.fetchCandidate (scanQuoted false)
  else if c = '"' then s.fetchCandidate (scanQuoted true)
  else if s.startsPlain then s.fetchPlain
  else .error (.fault ⟨some ("while scanning for the next token", none),
    s!"found character {shownChar c} that cannot start any token", s.mark⟩)

/-- The next token, with what indentation brings before it. -/
def fetch (s : Scanner) : Except ScanFault Scanner := do
  let s ← s.skipBlanks.dropExpired
  (s.unwind s.column).fetchToken

/-- How many tokens can be used before the scanner has to read on: those in front of the first
candidate for a key. -/
def settled (s : Scanner) : Nat := s.candidates.foldl (fun n (_, k) => min n k.token) s.tokens.length

end Scanner

/-- The tokens of a document, up to the place where it is at fault. -/
structure TokenStream where
  tokens : List Token
  fault : Option ScanFault
deriving Repr

/-- Read token after token.  A fault counts from the first token that cannot be used without reading
on to it.  Every round but the last takes a character, so the length of the document bounds them. -/
def scanFrom : Nat → Scanner → TokenStream
  | 0, s => ⟨s.tokens, none⟩
  | fuel + 1, s =>
    if s.finished then ⟨s.tokens, none⟩
    else
      match s.fetch.bind Scanner.dropExpired with
      | .error fault => ⟨s.tokens.take s.settled, some fault⟩
      | .ok next => scanFrom fuel next

/-- The tokens of a document. -/
def TokenStream.ofChars (chars : List Char) : TokenStream :=
  scanFrom (chars.length + 2) (.start chars)

end TreeDiff.Yaml
