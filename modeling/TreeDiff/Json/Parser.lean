/-
# Reading JSON

The grammar of JSON with three additions: `NaN`, `Infinity` and `-Infinity` are numbers.  A text
that is not in the grammar is refused with the first fault and its place.  A repeated member name
keeps its first position and its last value.
-/
import TreeDiff.Json.Basic

namespace TreeDiff.Json

/-- What is wrong at a place of a text. -/
inductive Fault where
  | expectingValue
  | expectingName
  | expectingColon
  | expectingComma
  | unterminatedString
  | controlCharacter
  | badEscape
  | badUnicodeEscape
  | extraData
  | byteOrderMark
  /-- An integer with more digits than are converted. -/
  | integerTooLong
deriving DecidableEq, Repr

/-- The wording of a fault. -/
def Fault.message : Fault → String
  | expectingValue => "Expecting value"
  | expectingName => "Expecting property name enclosed in double quotes"
  | expectingColon => "Expecting ':' delimiter"
  | expectingComma => "Expecting ',' delimiter"
  | unterminatedString => "Unterminated string starting at"
  | controlCharacter => "Invalid control character at"
  | badEscape => "Invalid \\escape"
  | badUnicodeEscape => "Invalid \\uXXXX escape"
  | extraData => "Extra data"
  | byteOrderMark => "Unexpected UTF-8 BOM (decode using utf-8-sig)"
  | integerTooLong => "Exceeds the limit for integer string conversion"

/-- A fault with its place: the offset counts characters from 0, line and column from 1. -/
structure ParseError where
  fault : Fault
  offset : Nat
  line : Nat
  column : Nat
deriving DecidableEq, Repr

/-- The line and column of the place after the given characters. -/
def lineColumn (before : List Char) : Nat × Nat :=
  before.foldl (fun (line, column) c => if c = '\n' then (line + 1, 1) else (line, column + 1))
    (1, 1)

/-- The error text: the fault, then its line, column and offset. -/
def ParseError.message (e : ParseError) : String :=
  s!"{e.fault.message}: line {e.line} column {e.column} (char {e.offset})"

/-- What is left of a text, and how many characters stand before it. -/
structure Cursor where
  rest : List Char
  offset : Nat

namespace Cursor

/-- The cursor after `n` more characters. -/
def skip (c : Cursor) (n : Nat) : Cursor := ⟨c.rest.drop n, c.offset + n⟩

/-- The cursor after blanks: space, tab, line feed and carriage return. -/
def blanks (c : Cursor) : Cursor :=
  c.skip (c.rest.takeWhile fun ch => ch = ' ' || ch = '\t' || ch = '\n' || ch = '\r').length

end Cursor

/-- The value of a hexadecimal digit. -/
def hexDigit? (c : Char) : Option Nat :=
  if '0' ≤ c ∧ c ≤ '9' then some (c.toNat - '0'.toNat)
  else if 'a' ≤ c ∧ c ≤ 'f' then some (c.toNat - 'a'.toNat + 10)
  else if 'A' ≤ c ∧ c ≤ 'F' then some (c.toNat - 'A'.toNat + 10)
  else none

/-- The value of four hexadecimal digits. -/
def hexQuad? : List Char → Option Nat
  | a :: b :: c :: d :: _ => do
    let a ← hexDigit? a
    let b ← hexDigit? b
    let c ← hexDigit? c
    let d ← hexDigit? d
    some (((a * 16 + b) * 16 + c) * 16 + d)
  | _ => none

/-- Whether a code unit is the first half of a surrogate pair. -/
def isHighSurrogate (unit : Nat) : Bool := 0xd800 ≤ unit && unit ≤ 0xdbff

/-- Whether a code unit is the second half of a surrogate pair. -/
def isLowSurrogate (unit : Nat) : Bool := 0xdc00 ≤ unit && unit ≤ 0xdfff

/-- The character of a code point; a lone surrogate has none and becomes U+FFFD. -/
def charOf (codePoint : Nat) : Char :=
  if isHighSurrogate codePoint || isLowSurrogate codePoint then Char.ofNat 0xfffd
  else Char.ofNat codePoint

/-- The unit after a first half of a surrogate pair: four digits of a second escape, when at least
one more character follows them.  Digits that are no digits are a fault. -/
def secondUnit (rest : List Char) (offset : Nat) : Except (Fault × Nat) (Option Nat) :=
  match rest with
  | '\\' :: 'u' :: digits =>
    if digits.length ≤ 4 then .ok none
    else match hexQuad? digits with
      | some unit => .ok (some unit)
      | none => .error (.badUnicodeEscape, offset + 1)
  | _ => .ok none

/-- Reads a string after its opening quote, which stands at `opening`.  Each step takes at least one
character, so the length of the text bounds the recursion. -/
def readString (opening : Nat) : Nat → List Char → Nat → List Char → Except (Fault × Nat) (String × Cursor)
  | 0, _, _, _ => .error (.unterminatedString, opening)
  | fuel + 1, rest, offset, read =>
    match rest with
    | [] => .error (.unterminatedString, opening)
    | '"' :: rest => .ok (String.ofList read.reverse, ⟨rest, offset + 1⟩)
    | '\\' :: rest =>
      let plain (c : Char) (tail : List Char) :=
        readString opening fuel tail (offset + 2) (c :: read)
      match rest with
      | [] => .error (.unterminatedString, opening)
      | '"' :: tail => plain '"' tail
      | '\\' :: tail => plain '\\' tail
      | '/' :: tail => plain '/' tail
      | 'b' :: tail => plain '\x08' tail
      | 'f' :: tail => plain '\x0c' tail
      | 'n' :: tail => plain '\n' tail
      | 'r' :: tail => plain '\r' tail
      | 't' :: tail => plain '\t' tail
      | 'u' :: tail =>
        if tail.length ≤ 4 then .error (.badUnicodeEscape, offset + 1)
        else match hexQuad? tail with
          | none => .error (.badUnicodeEscape, offset + 1)
          | some unit =>
            let after := tail.drop 4
            let single := readString opening fuel after (offset + 6) (charOf unit :: read)
            if isHighSurrogate unit then
              match secondUnit after (offset + 6) with
              | .error e => .error e
              | .ok none => single
              | .ok (some second) =>
                if isLowSurrogate second then
                  let codePoint := 0x10000 + (unit - 0xd800) * 0x400 + (second - 0xdc00)
                  readString opening fuel (after.drop 6) (offset + 12) (charOf codePoint :: read)
                else single
            else single
      | _ => .error (.badEscape, offset)
    | c :: rest =>
      if c.toNat < 0x20 then .error (.controlCharacter, offset)
      else readString opening fuel rest (offset + 1) (c :: read)

/-- The leading decimal digits of a text. -/
def leadingDigits (text : List Char) : List Char := text.takeWhile Char.isDigit

/-- The natural number that decimal digits denote. -/
def digitsValue (digits : List Char) : Nat :=
  digits.foldl (fun n c => n * 10 + (c.toNat - '0'.toNat)) 0

/-- The most digits an integer may have. -/
def maxIntegerDigits : Nat := 4300

/-- The parts of a number: its digits before the point, the digits after it, and the text and value
of its exponent. -/
def numberTail (rest : List Char) : List Char × Option (Nat × Int) :=
  let fraction := match rest with
    | '.' :: tail => leadingDigits tail
    | _ => []
  let rest := if fraction.isEmpty then rest else rest.drop (fraction.length + 1)
  let signed (sign : Int) (width : Nat) (tail : List Char) : Option (Nat × Int) :=
    let digits := leadingDigits tail
    if digits.isEmpty then none else some (width + digits.length, sign * digitsValue digits)
  let exponent := match rest with
    | e :: tail =>
      if e = 'e' ∨ e = 'E' then
        match tail with
        | '-' :: tail => signed (-1) 2 tail
        | '+' :: tail => signed 1 2 tail
        | tail => signed 1 1 tail
      else none
    | [] => none
  (fraction, exponent)

/-- Reads a number at the cursor. -/
def readNumber (c : Cursor) : Except (Fault × Nat) (Json × Cursor) :=
  let negative := c.rest.head? = some '-'
  let start := if negative then c.skip 1 else c
  let whole := match start.rest with
    | '0' :: _ => ['0']
    | rest => leadingDigits rest
  if whole.isEmpty then .error (.expectingValue, c.offset)
  else
    let after := start.skip whole.length
    let (fraction, exponent) := numberTail after.rest
    let fractionWidth := if fraction.isEmpty then 0 else fraction.length + 1
    match fraction, exponent with
    | [], none =>
      if maxIntegerDigits < whole.length then .error (.integerTooLong, c.offset)
      else
        let n : Int := digitsValue whole
        .ok (.int (if negative then -n else n), after)
    | _, _ =>
      let (exponentWidth, power) := exponent.getD (0, 0)
      let value := Binary64.ofDecimal negative (digitsValue (whole ++ fraction))
        (power - (fraction.length : Int))
      .ok (.float value, after.skip (fractionWidth + exponentWidth))

/-- The values that are written as a word. -/
def words : List (List Char × Json) :=
  [("null".toList, .null), ("true".toList, .bool true), ("false".toList, .bool false),
   ("NaN".toList, .float .nan), ("Infinity".toList, .float (.infinity false)),
   ("-Infinity".toList, .float (.infinity true))]

mutual

/-- Reads a value at the cursor.  Every call consumes a character or ends, so a fuel of the length
of the text is never used up. -/
def readValue : Nat → Cursor → Except (Fault × Nat) (Json × Cursor)
  | 0, c => .error (.expectingValue, c.offset)
  | fuel + 1, c =>
    match c.rest with
    | '"' :: rest =>
      (readString c.offset c.rest.length rest (c.offset + 1) []).map fun (s, c) => (.str s, c)
    | '{' :: _ =>
      let inner := (c.skip 1).blanks
      if inner.rest.head? = some '}' then .ok (.obj [], inner.skip 1)
      else readMembers fuel [] inner
    | '[' :: _ =>
      let inner := (c.skip 1).blanks
      if inner.rest.head? = some ']' then .ok (.arr [], inner.skip 1)
      else readItems fuel [] inner
    | rest =>
      match words.find? fun (word, _) => word.isPrefixOf rest with
      | some (word, value) => .ok (value, c.skip word.length)
      | none => readNumber c

/-- Reads the members of an object up to its closing brace. -/
def readMembers : Nat → List (String × Json) → Cursor → Except (Fault × Nat) (Json × Cursor)
  | 0, _, c => .error (.expectingName, c.offset)
  | fuel + 1, members, c =>
    match c.rest with
    | '"' :: rest => do
      let (name, c) ← readString c.offset c.rest.length rest (c.offset + 1) []
      let c := c.blanks
      if c.rest.head? ≠ some ':' then throw (.expectingColon, c.offset)
      let (value, c) ← readValue fuel (c.skip 1).blanks
      let c := c.blanks
      let members := assocPut name value members
      match c.rest with
      | '}' :: _ => .ok (.obj members, c.skip 1)
      | ',' :: _ => readMembers fuel members (c.skip 1).blanks
      | _ => .error (.expectingComma, c.offset)
    | _ => .error (.expectingName, c.offset)

/-- Reads the items of an array, the last one first in `items`, up to its closing bracket. -/
def readItems : Nat → List Json → Cursor → Except (Fault × Nat) (Json × Cursor)
  | 0, _, c => .error (.expectingValue, c.offset)
  | fuel + 1, items, c => do
    let (value, c) ← readValue fuel c
    let c := c.blanks
    match c.rest with
    | ']' :: _ => .ok (.arr (value :: items).reverse, c.skip 1)
    | ',' :: _ => readItems fuel (value :: items) (c.skip 1).blanks
    | _ => .error (.expectingComma, c.offset)

end

/-- Reads a whole text as one value between blanks. -/
def parse (text : String) : Except ParseError Json :=
  let chars := text.toList
  let result : Except (Fault × Nat) Json :=
    if chars.head? = some '\ufeff' then .error (.byteOrderMark, 0)
    else do
      let (value, c) ← readValue (chars.length + 1) (Cursor.blanks ⟨chars, 0⟩)
      let c := c.blanks
      if c.rest.isEmpty then pure value else throw (.extraData, c.offset)
  result.mapError fun (fault, offset) =>
    let (line, column) := lineColumn (chars.take offset)
    ⟨fault, offset, line, column⟩

end TreeDiff.Json
