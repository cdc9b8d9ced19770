/-
# What plain texts stand for

A text without quotes may stand for a truth value, a number, a moment or nothing, by the look of it.
Each kind of value has a tag.
-/
import TreeDiff.Json.Parser
import TreeDiff.Value.Basic

namespace TreeDiff.Yaml

/-- The full name of a tag of the format. -/
def coreTag (name : String) : String := "tag:yaml.org,2002:" ++ name

/-! ## Numbers -/

/-- A text without its sign. -/
def unsigned : List Char → List Char
  | '-' :: rest => rest
  | '+' :: rest => rest
  | text => text

/-- Whether a text consists of characters of a class, at least one. -/
def allOf (p : Char → Bool) (text : List Char) : Bool := !text.isEmpty && text.all p

/-- Whether a text starts with a digit and goes on with digits and underscores. -/
def isDigits (text : List Char) : Bool :=
  (text.headD ' ').isDigit && text.all fun c => c.isDigit || c = '_'

/-- Whether a text is the rest of a number in base 60: colons, each with one or two digits after
it. -/
def isSexagesimalTail : List Char → Bool
  | ':' :: a :: b :: rest =>
    if b.isDigit then a.isDigit && a.toNat ≤ '5'.toNat && (rest.isEmpty || isSexagesimalTail rest)
    else a.isDigit && isSexagesimalTail (b :: rest)
  | [':', a] => a.isDigit
  | _ => false

/-- Whether a text is a number in base 60 without a fraction. -/
def isSexagesimal (text : List Char) : Bool :=
  isDigits (text.takeWhile (· ≠ ':')) && isSexagesimalTail (text.dropWhile (· ≠ ':'))

/-- Whether a text looks like an integer. -/
def looksInteger (text : List Char) : Bool :=
  match unsigned text with
  | ['0'] => true
  | '0' :: 'b' :: rest => allOf (fun c => c = '0' || c = '1' || c = '_') rest
  | '0' :: 'x' :: rest => allOf (fun c => (Json.hexDigit? c).isSome || c = '_') rest
  | '0' :: rest => allOf (fun c => ('0' ≤ c && c ≤ '7') || c = '_') rest
  | body => isDigits body || isSexagesimal body

/-- Whether a text is an exponent with a sign, or nothing. -/
def isExponent : List Char → Bool
  | [] => true
  | e :: sign :: digits =>
    (e = 'e' || e = 'E') && (sign = '-' || sign = '+') && allOf Char.isDigit digits
  | _ => false

/-- Whether a text is a fraction after its point, with an exponent or without. -/
def isFraction (text : List Char) : Bool :=
  isExponent (text.dropWhile fun c => c.isDigit || c = '_')

/-- The names of infinity. -/
def infinityWords : List (List Char) := [".inf".toList, ".Inf".toList, ".INF".toList]

/-- The names of the number that is none. -/
def nanWords : List (List Char) := [".nan".toList, ".NaN".toList, ".NAN".toList]

/-- Whether a text looks like a number with a fraction. -/
def looksFloat (text : List Char) : Bool :=
  let body := unsigned text
  let whole := body.takeWhile (· ≠ '.')
  match body.dropWhile (· ≠ '.') with
  | [] => false
  | _ :: fraction =>
    (isDigits whole && isFraction fraction) ||
    (whole.isEmpty && body = text && (fraction.headD ' ').isDigit && isFraction fraction) ||
    (isSexagesimal whole && fraction.all fun c => c.isDigit || c = '_') ||
    infinityWords.contains body || nanWords.contains text

/-! ## Moments -/

/-- The digits at the start of a text, at least `least` and at most `most`, and the rest. -/
def someDigits? (least most : Nat) (text : List Char) : Option (List Char × List Char) :=
  let digits := (text.take most).takeWhile Char.isDigit
  if least ≤ digits.length then some (digits, text.drop digits.length) else none

/-- The rest of a text after a character. -/
def after? (c : Char) : List Char → Option (List Char)
  | d :: rest => if d = c then some rest else none
  | [] => none

/-- Whether a character is a blank inside a moment. -/
def isMomentBlank (c : Char) : Bool := c = ' ' || c = '\t'

/-- The parts of a moment as they are written. -/
structure MomentText where
  year : List Char
  month : List Char
  day : List Char
  /-- Hour, minute and second, the digits of the fraction, and the distance from universal time: its
  sign, hours and minutes, or nothing of these for universal time itself. -/
  clock : Option (List Char × List Char × List Char × List Char ×
    Option (Option (Bool × List Char × List Char)))
deriving Repr

/-- The distance from universal time at the end of a moment. -/
def readZone? (text : List Char) : Option (Option (Option (Bool × List Char × List Char))) :=
  if text.isEmpty then some none
  else match text.dropWhile isMomentBlank with
    | ['Z'] => some (some none)
    | sign :: rest =>
      if sign = '-' ∨ sign = '+' then do
        let (hour, rest) ← someDigits? 1 2 rest
        if rest.isEmpty then some (some (some (sign = '-', hour, [])))
        else do
          let rest ← after? ':' rest
          let (minute, rest) ← someDigits? 2 2 rest
          if rest.isEmpty then some (some (some (sign = '-', hour, minute))) else none
      else none
    | [] => none

/-- The time of a day, after what separates it from the day. -/
def readClock? (text : List Char) : Option (List Char × List Char × List Char × List Char ×
    Option (Option (Bool × List Char × List Char))) := do
  let (hour, rest) ← someDigits? 1 2 text
  let rest ← after? ':' rest
  let (minute, rest) ← someDigits? 2 2 rest
  let rest ← after? ':' rest
  let (second, rest) ← someDigits? 2 2 rest
  let (fraction, rest) := match rest with
    | '.' :: tail => (tail.takeWhile Char.isDigit, tail.dropWhile Char.isDigit)
    | _ => ([], rest)
  let zone ← readZone? rest
  some (hour, minute, second, fraction, zone)

/-- What separates the time of a day from the day: a letter or blanks. -/
def afterDay? : List Char → Option (List Char)
  | 'T' :: rest => some rest
  | 't' :: rest => some rest
  | c :: rest => if isMomentBlank c then some (rest.dropWhile isMomentBlank) else none
  | [] => none

/-- A text without the newline at its end, before which its end is looked for, too. -/
def withoutNewline (text : List Char) : List Char :=
  if text.getLast? = some '\n' then text.dropLast else text

/-- The parts of a text that is a moment or a day. -/
def readMoment? (text : List Char) : Option MomentText := do
  let (year, rest) ← someDigits? 4 4 (withoutNewline text)
  let rest ← after? '-' rest
  let (month, rest) ← someDigits? 1 2 rest
  let rest ← after? '-' rest
  let (day, rest) ← someDigits? 1 2 rest
  if rest.isEmpty then some ⟨year, month, day, none⟩
  else do
    let clock ← readClock? (← afterDay? rest)
    some ⟨year, month, day, some clock⟩

/-- Whether a text looks like a moment; a day alone has two digits for month and day. -/
def looksMoment (text : List Char) : Bool :=
  match readMoment? text with
  | some m => m.clock.isSome || text.length = 10
  | none => false

/-! ## Tags -/

/-- The words for truth. -/
def trueWords : List String := ["yes", "Yes", "YES", "true", "True", "TRUE", "on", "On", "ON"]

/-- The words for falsehood. -/
def falseWords : List String := ["no", "No", "NO", "false", "False", "FALSE", "off", "Off", "OFF"]

/-- The words for nothing. -/
def nullWords : List String := ["~", "null", "Null", "NULL", ""]

/-- The texts that stand for a sign of the format. -/
def signWords : List (String × String) :=
  [("<<", "merge"), ("=", "value"), ("!", "yaml"), ("&", "yaml"), ("*", "yaml")]

/-- The tag of a plain text, or of one that is to be read like one. -/
def plainTag (written : String) : String :=
  let chars := withoutNewline written.toList
  let text := String.ofList chars
  if written = "\n" then coreTag "str"
  else if trueWords.contains text || falseWords.contains text then coreTag "bool"
  else if looksFloat chars then coreTag "float"
  else if looksInteger chars then coreTag "int"
  else if nullWords.contains text then coreTag "null"
  else if looksMoment chars then coreTag "timestamp"
  else match signWords.lookup text with
    | some name => coreTag name
    | none => coreTag "str"

end TreeDiff.Yaml
