/-
# Kinds of values

A setting is given as a value of some kind: a text, an integer, a number, a truth value, a path, a
list, or one of a few names.  Which other values pass for one of a kind is left open.  Usually these
are a text that reads as a number, a whole number written with a fraction, and a word for a truth
value.
-/
import TreeDiff.Number.Binary64
import TreeDiff.Text.Encoding
import TreeDiff.Text.Numeral
import TreeDiff.Value.Basic

namespace TreeDiff

/-- Why a value does not pass for one of its kind. -/
structure Complaint where
  /-- The name of the rule that is broken. -/
  rule : String
  message : String

/-- What the values of each kind are, and what passes for one. -/
class Coercions where
  text : Value → Except Complaint String
  integer : Value → Except Complaint Int
  number : Value → Except Complaint Binary64
  truth : Value → Except Complaint Bool
  /-- The text of a path. -/
  path : Value → Except Complaint String
  /-- The items of a list. -/
  items : Value → Except Complaint (List Value)
  /-- Which one of some names a value is. -/
  choice (names : List String) : Value → Except Complaint (Fin names.length)

namespace Coercions

/-- The text of a text or of bytes that encode one. -/
inductive TextLike where
  | text (s : String)
  | undecodable
  | other

/-- What a value is as a text. -/
def textLike : Value → TextLike
  | .text s => .text s
  | .bytes bs =>
    match Text.Utf8.decode bs with
    | .ok s => .text s
    | .error _ => .undecodable
  | _ => .other

/-- Any text. -/
def usualText (v : Value) : Except Complaint String :=
  match textLike v with
  | .text s => .ok s
  | .undecodable => .error ⟨"string_unicode",
      "Input should be a valid string, unable to parse raw data as a unicode string"⟩
  | .other => .error ⟨"string_type", "Input should be a valid string"⟩

/-- The words for truth. -/
def trueWords : List String := ["1", "on", "t", "true", "y", "yes"]

/-- The words for falsehood. -/
def falseWords : List String := ["0", "off", "f", "false", "n", "no"]

/-- The least number beyond every 64-bit integer. -/
def wordBound : Int := 0x8000000000000000

/-- A whole number that has 64 bits with its sign. -/
def wholeWord? (x : Binary64) : Option Int :=
  x.toInt?.bind fun n => if -wordBound < n ∧ n < wordBound then some n else none

/-- A value that is no word for a truth value. -/
def notTruth : Except Complaint Bool :=
  .error ⟨"bool_parsing", "Input should be a valid boolean, unable to interpret input"⟩

/-- A truth value, given as 0 or 1. -/
def truthOfInt (n : Int) : Except Complaint Bool :=
  if n = 0 then .ok false else if n = 1 then .ok true else notTruth

/-- A truth value. -/
def usualTruth (v : Value) : Except Complaint Bool :=
  let wrongKind : Except Complaint Bool := .error ⟨"bool_type", "Input should be a valid boolean"⟩
  match v with
  | .bool b => .ok b
  | .int n => if -wordBound ≤ n ∧ n < wordBound then truthOfInt n else wrongKind
  | .float x =>
    match wholeWord? x with
    | some n => truthOfInt n
    | none => wrongKind
  | _ =>
    match textLike v with
    | .text s =>
      let word := s.map Char.toLower
      if trueWords.contains word then .ok true
      else if falseWords.contains word then .ok false
      else notTruth
    | .undecodable => notTruth
    | .other => wrongKind

/-- A value that is no numeral of an integer. -/
def notInteger : Except Complaint Int :=
  .error ⟨"int_parsing", "Input should be a valid integer, unable to parse string as an integer"⟩

/-- An integer. -/
def usualInteger (v : Value) : Except Complaint Int :=
  match v with
  | .int n => .ok n
  | .bool b => .ok (if b then 1 else 0)
  | .float x =>
    if !x.isFinite then .error ⟨"finite_number", "Input should be a finite number"⟩
    else match x.toInt? with
      | none => .error ⟨"int_from_float",
          "Input should be a valid integer, got a number with a fractional part"⟩
      | some _ =>
        match wholeWord? x with
        | some n => .ok n
        | none => notInteger
  | _ =>
    match textLike v with
    | .text s =>
      match Text.readInteger s with
      | .value n => .ok n
      | .tooLong => .error ⟨"int_parsing_size",
          "Unable to parse input string as an integer, exceeded maximum size"⟩
      | .malformed => notInteger
    | .undecodable => notInteger
    | .other => .error ⟨"int_type", "Input should be a valid integer"⟩

/-- A number. -/
def usualNumber (v : Value) : Except Complaint Binary64 :=
  let wrongKind : Except Complaint Binary64 :=
    .error ⟨"float_type", "Input should be a valid number"⟩
  let noNumeral : Except Complaint Binary64 :=
    .error ⟨"float_parsing", "Input should be a valid number, unable to parse string as a number"⟩
  match v with
  | .float x => .ok x
  | .bool b => .ok (.ofInt (if b then 1 else 0))
  | .int n => if (Binary64.ofInt n).isFinite then .ok (.ofInt n) else wrongKind
  | _ =>
    match textLike v with
    | .text s =>
      match Text.readNumber? s with
      | some x => .ok x
      | none => noNumeral
    | .undecodable => noNumeral
    | .other => wrongKind

/-- A path, as it stands. -/
def usualPath : Value → Except Complaint String
  | .text s => .ok s
  | _ => .error ⟨"path_type", "Input is not a valid path for <class 'pathlib.Path'>"⟩

/-- The items of what is a list, or of what can be gone through like one. -/
def usualItems : Value → Except Complaint (List Value)
  | .list items => .ok items
  | .set items => .ok items
  | .pair key value => .ok [key, value]
  | _ => .error ⟨"list_type", "Input should be a valid list"⟩

/-- Names in quotes, the last one after a word. -/
def alternatives : List String → String
  | [] => ""
  | [a] => s!"'{a}'"
  | [a, b] => s!"'{a}' or '{b}'"
  | a :: rest => s!"'{a}', {alternatives rest}"

/-- A name, as it stands. -/
def usualChoice (names : List String) (v : Value) : Except Complaint (Fin names.length) :=
  let found := match v with
    | .text s => names.finIdxOf? s
    | _ => none
  match found with
  | some i => .ok i
  | none => .error ⟨"literal_error", s!"Input should be {alternatives names}"⟩

/-- The usual kinds. -/
instance usual : Coercions where
  text := usualText
  integer := usualInteger
  number := usualNumber
  truth := usualTruth
  path := usualPath
  items := usualItems
  choice := usualChoice

end Coercions

end TreeDiff
