/-
# Writing JSON

A value is written on one line, or spread over lines with two blanks of indentation.  Text outside
ASCII is kept or escaped.
-/
import TreeDiff.Json.Basic
import TreeDiff.Number.Shortest

namespace TreeDiff.Json

/-- How JSON is laid out. -/
structure Style where
  /-- Spread the value over lines. -/
  spread : Bool
  /-- Escape every character outside ASCII. -/
  asciiOnly : Bool
deriving DecidableEq, Repr

/-- One line, everything in ASCII. -/
def Style.line : Style := ⟨false, true⟩

/-- Indented lines, text kept as it is. -/
def Style.page : Style := ⟨true, false⟩

/-- A code unit as an escape of four hexadecimal digits. -/
def unitEscape (unit : Nat) : List Char :=
  let digits := Nat.toDigits 16 unit
  '\\' :: 'u' :: (List.replicate (4 - digits.length) '0' ++ digits)

/-- A character inside a string. -/
def escapeChar (asciiOnly : Bool) (c : Char) : List Char :=
  if c = '"' then ['\\', '"']
  else if c = '\\' then ['\\', '\\']
  else if c = '\n' then ['\\', 'n']
  else if c = '\r' then ['\\', 'r']
  else if c = '\t' then ['\\', 't']
  else if c = '\x08' then ['\\', 'b']
  else if c = '\x0c' then ['\\', 'f']
  else if c.toNat < 0x20 then unitEscape c.toNat
  else if asciiOnly && 0x7e < c.toNat then
    if c.toNat < 0x10000 then unitEscape c.toNat
    else
      let above := c.toNat - 0x10000
      unitEscape (0xd800 + above / 0x400) ++ unitEscape (0xdc00 + above % 0x400)
  else [c]

/-- A string in quotes. -/
def quoteString (asciiOnly : Bool) (s : String) : List Char :=
  '"' :: s.toList.flatMap (escapeChar asciiOnly) ++ ['"']

/-- A number that is no integer; infinities and `nan` have names. -/
def floatText : Binary64 → String
  | .nan => "NaN"
  | .infinity negative => if negative then "-Infinity" else "Infinity"
  | x => x.toText

/-- The start of a new line at a depth, or nothing when the value stays on one line. -/
def newline (style : Style) (depth : Nat) : List Char :=
  if style.spread then '\n' :: List.replicate (2 * depth) ' ' else []

/-- What separates two parts of a container. -/
def separator (style : Style) (depth : Nat) : List Char :=
  if style.spread then ',' :: newline style depth else [',', ' ']

mutual

/-- Writes a value at a depth, in front of what follows. -/
def writeValue (style : Style) (depth : Nat) : Json → List Char → List Char
  | .null, tail => "null".toList ++ tail
  | .bool b, tail => (if b then "true" else "false").toList ++ tail
  | .int n, tail => (toString n).toList ++ tail
  | .float x, tail => (floatText x).toList ++ tail
  | .str s, tail => quoteString style.asciiOnly s ++ tail
  | .arr [], tail => '[' :: ']' :: tail
  | .arr (item :: items), tail =>
    '[' :: (newline style (depth + 1) ++ writeValue style (depth + 1) item
      (writeItems style (depth + 1) items (newline style depth ++ ']' :: tail)))
  | .obj [], tail => '{' :: '}' :: tail
  | .obj ((name, value) :: members), tail =>
    '{' :: (newline style (depth + 1) ++ quoteString style.asciiOnly name ++ ':' :: ' ' ::
      writeValue style (depth + 1) value
        (writeMembers style (depth + 1) members (newline style depth ++ '}' :: tail)))

/-- Writes the items after the first. -/
def writeItems (style : Style) (depth : Nat) : List Json → List Char → List Char
  | [], tail => tail
  | item :: items, tail =>
    separator style depth ++ writeValue style depth item (writeItems style depth items tail)

/-- Writes the members after the first. -/
def writeMembers (style : Style) (depth : Nat) : List (String × Json) → List Char → List Char
  | [], tail => tail
  | (name, value) :: members, tail =>
    separator style depth ++ quoteString style.asciiOnly name ++ ':' :: ' ' ::
      writeValue style depth value (writeMembers style depth members tail)

end

/-- The text of a value. -/
def render (style : Style) (json : Json) : String := String.ofList (writeValue style 0 json [])

end TreeDiff.Json
