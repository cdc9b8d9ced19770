/-
# Directives, anchors and tags in YAML documents
-/
import TreeDiff.Text.Encoding
import TreeDiff.Yaml.Scalar

namespace TreeDiff.Yaml

/-! ## Anchors -/

/-- The anchor or alias at the cursor. -/
def scanAnchor (isAlias : Bool) (c : Cursor) : Except ScanFault (Token × Cursor) :=
  let start := c.mark
  let context := if isAlias then "while scanning an alias" else "while scanning an anchor"
  let (name, after) := c.step.takeWhile isWordChar
  let wrong : Except ScanFault (Token × Cursor) := refuse context start
    s!"expected alphabetic or numeric character, but found {shownChar after.head}" after.mark
  if name.isEmpty then wrong
  else if isGap after.head || "?:,]\x7d%@\x60".toList.contains after.head then
    let name := String.ofList name
    .ok (⟨if isAlias then .reuse name else .anchor name, start, after.mark⟩, after)
  else wrong

/-! ## Tags -/

/-- Whether a character may stand in a tag as itself. -/
def isTagChar (c : Char) : Bool := isWordChar c || ";/?:@&=+$,.!~*'()[]".toList.contains c

/-- The bytes that escapes at the cursor give in hexadecimal. -/
def tagEscapes (context : String) (start : Mark) :
    Nat → Cursor → List UInt8 → Except ScanFault (List UInt8 × Cursor)
  | 0, c, bytes => .ok (bytes, c)
  | fuel + 1, c, bytes =>
    if c.head = '%' then
      let c := c.step
      match [c.peek 0, c.peek 1].find? fun ch => (Json.hexDigit? ch).isNone with
      | some ch => refuse context start
          s!"expected URI escape sequence of 2 hexadecimal numbers, but found {shownChar ch}" c.mark
      | none =>
        let byte := (Json.hexDigit? (c.peek 0)).getD 0 * 16 + (Json.hexDigit? (c.peek 1)).getD 0
        tagEscapes context start fuel (c.skip 2) (bytes ++ [UInt8.ofNat byte])
    else .ok (bytes, c)

/-- The characters of a tag from the cursor on. -/
def tagText (context : String) (start : Mark) :
    Nat → Cursor → List Char → Except ScanFault (List Char × Cursor)
  | 0, c, read => .ok (read, c)
  | fuel + 1, c, read =>
    if c.head = '%' then
      match tagEscapes context start (c.rest.length + 1) c [] with
      | .error e => .error e
      | .ok (bytes, after) =>
        match Text.Utf8.decode bytes with
        | .error fault => refuse context start fault.message c.mark
        | .ok text => tagText context start fuel after (read ++ text.toList)
    else if !c.rest.isEmpty && isTagChar c.head then tagText context start fuel c.step (read ++ [c.head])
    else .ok (read, c)

/-- A tag, or the start of tags that a handle abbreviates; it has at least one character. -/
def scanTagText (name : String) (start : Mark) (c : Cursor) :
    Except ScanFault (String × Cursor) :=
  match tagText s!"while scanning a {name}" start (c.rest.length + 1) c [] with
  | .error e => .error e
  | .ok (text, after) =>
    if after.index = c.index then
      refuse s!"while parsing a {name}" start s!"expected URI, but found {shownChar after.head}"
        after.mark
    else .ok (String.ofList text, after)

/-- The handle of a tag: a word between exclamation marks, which may be a single one before a
blank. -/
def scanTagHandle (name : String) (start : Mark) (c : Cursor) :
    Except ScanFault (String × Cursor) :=
  let context := s!"while scanning a {name}"
  if c.head ≠ '!' then
    refuse context start s!"expected '!', but found {shownChar c.head}" c.mark
  else if c.peek 1 = ' ' then .ok ("!", c.step)
  else
    let (word, after) := c.step.takeWhile isWordChar
    if after.head ≠ '!' then
      refuse context start s!"expected '!', but found {shownChar after.head}" after.mark
    else .ok (String.ofList ('!' :: word ++ ['!']), after.step)

/-- The handle and the suffix of the tag at the cursor. -/
def tagParts (c : Cursor) : Except ScanFault (Option String × String × Cursor) :=
  let start := c.mark
  if c.peek 1 = '<' then
    match scanTagText "tag" start (c.skip 2) with
    | .error e => .error e
    | .ok (suffix, after) =>
      if after.head = '>' then .ok (none, suffix, after.step)
      else refuse "while parsing a tag" start s!"expected '>', but found {shownChar after.head}"
        after.mark
  else if isGap (c.peek 1) then .ok (none, "!", c.step)
  else
    let word := c.step.rest.takeWhile fun ch => !isSpaceOrEnd ch
    let handle : Except ScanFault (String × Cursor) :=
      if word.contains '!' then scanTagHandle "tag" start c else .ok ("!", c.step)
    match handle with
    | .error e => .error e
    | .ok (handle, after) =>
      (scanTagText "tag" start after).map fun (suffix, after) => (some handle, suffix, after)

/-- The tag at the cursor. -/
def scanTag (c : Cursor) : Except ScanFault (Token × Cursor) :=
  match tagParts c with
  | .error e => .error e
  | .ok (handle, suffix, after) =>
    if isSpaceOrEnd after.head then .ok (⟨.tag handle suffix, c.mark, after.mark⟩, after)
    else refuse "while scanning a tag" c.mark s!"expected ' ', but found {shownChar after.head}"
      after.mark

/-! ## Directives -/

/-- A refusal while a directive is read. -/
def refuseDirective {α : Type} (start : Mark) (expected : String) (c : Cursor) :
    Except ScanFault α :=
  refuse "while scanning a directive" start s!"expected {expected}, but found {shownChar c.head}" c.mark

/-- The name of a directive. -/
def directiveName (start : Mark) (c : Cursor) : Except ScanFault (String × Cursor) :=
  let (name, after) := c.takeWhile isWordChar
  if name.isEmpty || !isSpaceOrEnd after.head then
    refuseDirective start "alphabetic or numeric character" after
  else .ok (String.ofList name, after)

/-- A part of a version. -/
def versionPart (start : Mark) (c : Cursor) : Except ScanFault (Nat × Cursor) :=
  let (digits, after) := c.takeWhile Char.isDigit
  if digits.isEmpty then refuseDirective start "a digit" c
  else .ok (Json.digitsValue digits, after)

/-- A version: two numbers and a dot. -/
def versionDirective (start : Mark) (c : Cursor) : Except ScanFault (Directive × Cursor) :=
  match versionPart start (c.skipWhile (· = ' ')) with
  | .error e => .error e
  | .ok (major, c) =>
    if c.head ≠ '.' then refuseDirective start "a digit or '.'" c
    else match versionPart start c.step with
      | .error e => .error e
      | .ok (minor, c) =>
        if isSpaceOrEnd c.head then .ok (.version major minor, c)
        else refuseDirective start "a digit or ' '" c

/-- A handle and the start of tags that it abbreviates. -/
def handleDirective (start : Mark) (c : Cursor) : Except ScanFault (Directive × Cursor) :=
  match scanTagHandle "directive" start (c.skipWhile (· = ' ')) with
  | .error e => .error e
  | .ok (name, c) =>
    if c.head ≠ ' ' then refuseDirective start "' '" c
    else match scanTagText "directive" start (c.skipWhile (· = ' ')) with
      | .error e => .error e
      | .ok (text, c) =>
        if isSpaceOrEnd c.head then .ok (.handle name text, c)
        else refuseDirective start "' '" c

/-- What a directive says after its name. -/
def directiveBody (start : Mark) (name : String) (c : Cursor) :
    Except ScanFault (Directive × Cursor) :=
  if name = "YAML" then versionDirective start c
  else if name = "TAG" then handleDirective start c
  else .ok (.other name, c.skipWhile fun ch => !isLineEnd ch)

/-- The directive at the cursor, with the rest of its line. -/
def scanDirective (c : Cursor) : Except ScanFault (Token × Cursor) := do
  let start := c.mark
  let (name, c) ← directiveName start c.step
  let (directive, c) ← directiveBody start name c
  let stop := c.mark
  let c := c.skipComment
  if isLineEnd c.head then pure (⟨.directive directive, start, stop⟩, c.takeBreak.2)
  else refuseDirective start "a comment or a line break" c

end TreeDiff.Yaml
