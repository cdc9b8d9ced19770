/-
# Numbers, bytes and moments in YAML documents

A text whose tag says what it is may still not be that: the ways in which it can fail are kept
apart.
-/
import TreeDiff.Text.Numeral
import TreeDiff.Yaml.Meaning

namespace TreeDiff.Yaml

/-- How a text fails to be what its tag says. -/
inductive Misfit where
  /-- No number, or no day of the calendar. -/
  | value
  /-- A number without any digit. -/
  | blank
  /-- No word for a truth value. -/
  | truth
  /-- Not written like a moment. -/
  | moment
  /-- A character beyond the last code point. -/
  | character
  /-- A character whose number is beyond every limit. -/
  | hugeCharacter
deriving DecidableEq, Repr

/-! ## Integers -/

/-- The value of a digit in a base up to 16. -/
def digitIn? (base : Nat) (c : Char) : Option Nat :=
  (Json.hexDigit? c).bind fun n => if n < base then some n else none

/-- The letter that announces a base. -/
def baseLetter? : Nat → Option Char
  | 2 => some 'b'
  | 8 => some 'o'
  | 16 => some 'x'
  | _ => none

/-- Digits without the announcement of their base. -/
def withoutAnnouncement (base : Nat) : List Char → List Char
  | '0' :: letter :: rest =>
    if baseLetter? base = some letter.toLower then rest else '0' :: letter :: rest
  | digits => digits

/-- The integer that a text denotes in a base: blanks around it, a sign, the announcement of the
base and the digits of any script are allowed. -/
def integerIn? (base : Nat) (text : List Char) : Option Int :=
  let body := Text.withPlainDigits (Text.trimmed text)
  let (negative, body) : Bool × List Char := match body with
    | '-' :: rest => (true, rest)
    | '+' :: rest => (false, rest)
    | _ => (false, body)
  let digits := withoutAnnouncement base body
  if digits.isEmpty then none
  else if base = 10 ∧ Text.maxDigits < digits.length then none
  else (digits.mapM (digitIn? base)).map fun values =>
    let n : Int := values.foldl (fun (n : Int) (d : Nat) => n * base + d) 0
    if negative then -n else n

/-- The parts of a text between colons. -/
def splitColons : List Char → List (List Char)
  | [] => [[]]
  | c :: rest =>
    match splitColons rest with
    | [] => [[c]]
    | part :: parts => if c = ':' then [] :: part :: parts else (c :: part) :: parts

/-- A number that is not negative, in any of the notations for integers. -/
def magnitude (text : List Char) : Except Misfit Int :=
  let need (n : Option Int) : Except Misfit Int := match n with
    | some n => .ok n
    | none => .error .value
  match text with
  | [] => .error .blank
  | ['0'] => .ok 0
  | '0' :: 'b' :: rest => need (integerIn? 2 rest)
  | '0' :: 'x' :: rest => need (integerIn? 16 rest)
  | '0' :: _ => need (integerIn? 8 text)
  | _ =>
    if text.contains ':' then
      need (((splitColons text).mapM (integerIn? 10)).map fun parts =>
        parts.foldl (fun n part => n * 60 + part) 0)
    else need (integerIn? 10 text)

/-- The integer that a text denotes. -/
def readInteger (text : List Char) : Except Misfit Int :=
  let plain := text.filter (· ≠ '_')
  match plain with
  | [] => .error .blank
  | '-' :: rest => (magnitude rest).map fun n => -n
  | '+' :: rest => magnitude rest
  | _ => magnitude plain

/-! ## Other numbers -/

/-- The number that a text denotes, with blanks around it and digits of any script. -/
def plainFloat? (text : List Char) : Option Binary64 :=
  Text.readSigned? (Text.withPlainDigits (Text.trimmed text))

/-- The sum of parts that count for ones, sixties, and so on, the last part first. -/
def sexagesimal : Nat → Binary64 → List Binary64 → Binary64
  | _, sum, [] => sum
  | base, sum, part :: rest => sexagesimal (base * 60) (sum.add (part.scale base)) rest

/-- The number that a text denotes. -/
def readFloat (text : List Char) : Except Misfit Binary64 :=
  let plain := (text.filter (· ≠ '_')).map Char.toLower
  if plain.isEmpty then .error .blank
  else
    let body := unsigned plain
    let signed (x : Binary64) : Binary64 := if plain.head? = some '-' then x.neg else x
    let need (x : Option Binary64) : Except Misfit Binary64 := match x with
      | some x => .ok (signed x)
      | none => .error .value
    if body = ".inf".toList then .ok (signed (.infinity false))
    else if body = ".nan".toList then .ok .nan
    else if body.contains ':' then
      need (((splitColons body).mapM plainFloat?).map fun parts =>
        sexagesimal 1 .zero parts.reverse)
    else need (plainFloat? body)

/-! ## Moments -/

/-- A day of the calendar. -/
def date? (year month day : Nat) : Option Date :=
  if 1 ≤ year ∧ 1 ≤ month ∧ month ≤ 12 ∧ 1 ≤ day ∧ day ≤ Date.daysIn year month then
    some ⟨year, month, day⟩
  else none

/-- The first six digits of a fraction, as a count of millionths. -/
def microseconds (fraction : List Char) : Nat :=
  let digits := fraction.take 6
  Text.numberOf (digits ++ List.replicate (6 - digits.length) '0')

/-- The distance from universal time in seconds; it is less than a day. -/
def zoneSeconds? : Option (Bool × List Char × List Char) → Option Int
  | none => some 0
  | some (west, hour, minute) =>
    let n := (Text.numberOf hour * 60 + Text.numberOf minute) * 60
    if n < 86400 then some (if west then -(n : Int) else n) else none

/-- The moment or the day that a text denotes. -/
def readMoment (text : List Char) : Except Misfit Value :=
  match readMoment? text with
  | none => .error .moment
  | some m =>
    match date? (Text.numberOf m.year) (Text.numberOf m.month) (Text.numberOf m.day), m.clock with
    | none, _ => .error .value
    | some date, none => .ok (.date date)
    | some date, some (hour, minute, second, fraction, zone) =>
      let hour := Text.numberOf hour
      let minute := Text.numberOf minute
      let second := Text.numberOf second
      if hour < 24 ∧ minute < 60 ∧ second < 60 then
        match zone with
        | none => .ok (.moment ⟨date, hour, minute, second, microseconds fraction, none⟩)
        | some zone =>
          match zoneSeconds? zone with
          | some offset =>
            .ok (.moment ⟨date, hour, minute, second, microseconds fraction, some offset⟩)
          | none => .error .value
      else .error .value

/-! ## Truth values and bytes -/

/-- The truth value that a word denotes, in any case. -/
def readTruth (text : List Char) : Except Misfit Bool :=
  let word := String.ofList (text.map Char.toLower)
  if word = "yes" ∨ word = "true" ∨ word = "on" then .ok true
  else if word = "no" ∨ word = "false" ∨ word = "off" then .ok false
  else .error .truth

/-- The value of a digit in base 64. -/
def base64Digit? (c : Char) : Option Nat :=
  if 'A' ≤ c ∧ c ≤ 'Z' then some (c.toNat - 'A'.toNat)
  else if 'a' ≤ c ∧ c ≤ 'z' then some (c.toNat - 'a'.toNat + 26)
  else if '0' ≤ c ∧ c ≤ '9' then some (c.toNat - '0'.toNat + 52)
  else if c = '+' then some 62
  else if c = '/' then some 63
  else none

/-- Bytes read so far, how many digits of a group of four were read, what they leave over, and how
many signs of padding follow them. -/
structure Base64State where
  bytes : List UInt8
  place : Nat
  rest : Nat
  pads : Nat

/-- The state after one more digit. -/
def Base64State.digit (s : Base64State) (n : Nat) : Base64State :=
  match s.place with
  | 0 => ⟨s.bytes, 1, n, 0⟩
  | 1 => ⟨s.bytes ++ [UInt8.ofNat (s.rest * 4 + n / 16)], 2, n % 16, 0⟩
  | 2 => ⟨s.bytes ++ [UInt8.ofNat (s.rest * 16 + n / 4)], 3, n % 4, 0⟩
  | _ => ⟨s.bytes ++ [UInt8.ofNat (s.rest * 64 + n)], 0, 0, 0⟩

/-- The bytes that a text denotes in base 64, or how it fails to be complete.  Other characters are
passed over, and complete padding ends the text. -/
def base64From (s : Base64State) : List Char → Except String (List UInt8)
  | [] =>
    if s.place = 0 then .ok s.bytes
    else if s.place = 1 then
      let count := s.bytes.length / 3 * 4 + 1
      .error (s!"Invalid base64-encoded string: number of data characters ({count}) " ++
        "cannot be 1 more than a multiple of 4")
    else .error "Incorrect padding"
  | c :: text =>
    if c = '=' then
      if 2 ≤ s.place then
        if 4 ≤ s.place + (s.pads + 1) then .ok s.bytes
        else base64From { s with pads := s.pads + 1 } text
      else base64From s text
    else match base64Digit? c with
      | some n => base64From (s.digit n) text
      | none => base64From s text

/-- The bytes that a text denotes in base 64. -/
def readBase64 (text : List Char) : Except String (List UInt8) := base64From ⟨[], 0, 0, 0⟩ text

end TreeDiff.Yaml
