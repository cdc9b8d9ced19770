/-
# Numerals

How numbers may be written in the text of a setting.  An integer may have a sign, leading zeros,
single underscores between its digits, and a fraction of zeros.  Any other number is written in
positional or in scientific notation, or it is called by its name.
-/
import TreeDiff.Number.Binary64
import TreeDiff.Text.Blank

namespace TreeDiff.Text

/-- The zeros of all scripts.  Each is followed by the other nine digits of its script. -/
def zeros : List Nat :=
  [0x30, 0x660, 0x6f0, 0x7c0, 0x966, 0x9e6, 0xa66, 0xae6, 0xb66, 0xbe6, 0xc66, 0xce6, 0xd66,
   0xde6, 0xe50, 0xed0, 0xf20, 0x1040, 0x1090, 0x17e0, 0x1810, 0x1946, 0x19d0, 0x1a80, 0x1a90,
   0x1b50, 0x1bb0, 0x1c40, 0x1c50, 0xa620, 0xa8d0, 0xa900, 0xa9d0, 0xa9f0, 0xaa50, 0xabf0, 0xff10,
   0x104a0, 0x10d30, 0x11066, 0x110f0, 0x11136, 0x111d0, 0x112f0, 0x11450, 0x114d0, 0x11650,
   0x116c0, 0x11730, 0x118e0, 0x11950, 0x11c50, 0x11d50, 0x11da0, 0x16a60, 0x16ac0, 0x16b50,
   0x1d7ce, 0x1d7d8, 0x1d7e2, 0x1d7ec, 0x1d7f6, 0x1e140, 0x1e2f0, 0x1e950, 0x1fbf0]

/-- A text whose decimal digits are those from `0` to `9`, whatever script they were of. -/
def withPlainDigits (text : List Char) : List Char :=
  text.map fun c =>
    match zeros.find? fun first => first ≤ c.toNat && c.toNat < first + 10 with
    | some first => Char.ofNat ('0'.toNat + (c.toNat - first))
    | none => c

/-- The natural number that decimal digits denote. -/
def numberOf (digits : List Char) : Nat :=
  digits.foldl (fun n c => n * 10 + (c.toNat - '0'.toNat)) 0

/-- The text without its underscores, which must be single and stand inside it; nothing when it has
none or has them elsewhere. -/
def withoutUnderscores? (text : List Char) : Option (List Char) :=
  if !text.contains '_' || text.head? = some '_' || text.getLast? = some '_' || doubled text then none
  else some (text.filter (· ≠ '_'))
where
  /-- Whether two underscores follow each other. -/
  doubled : List Char → Bool
    | '_' :: '_' :: _ => true
    | _ :: rest => doubled rest
    | [] => false

/-! ## Integers -/

/-- What a text is as an integer. -/
inductive IntegerText where
  | value (n : Int)
  | tooLong
  | malformed
deriving DecidableEq, Repr

/-- The most digits that an integer may have. -/
def maxDigits : Nat := 4300

/-- Reads digits without leading zeros, after an optional sign. -/
def plainInteger (negative : Bool) (digits : List Char) : IntegerText :=
  if digits.isEmpty || !digits.all Char.isDigit then .malformed
  else if digits.head? = some '0' ∧ 1 < digits.length then .malformed
  else if maxDigits < digits.length then .tooLong
  else
    let n : Int := numberOf digits
    .value (if negative then -n else n)

/-- A numeral without its leading zeros.  Underscores among them are dropped with them. -/
def withoutLeadingZeros? : List Char → Option (List Char)
  | '0' :: rest => strip '0' rest
  | c :: rest => if c.isDigit then some (c :: rest) else none
  | [] => none
where
  /-- What remains after a zero or an underscore. -/
  strip (last : Char) : List Char → Option (List Char)
    | [] => some [last]
    | c :: rest =>
      if c = '0' ∨ c = '_' then strip c rest
      else if c.isDigit then some (c :: rest)
      else if c = '.' then some (last :: c :: rest)
      else none

/-- A numeral without a fraction of zeros. -/
def withoutZeroFraction (text : List Char) : List Char :=
  let fraction := text.dropWhile (· ≠ '.')
  if !fraction.isEmpty && fraction.tail.all (· = '0') then text.takeWhile (· ≠ '.') else text

/-- The sign of a numeral and what follows it: at most one sign is allowed. -/
def splitSign? (text : List Char) : Option (Bool × List Char) :=
  let unsigned : Bool × List Char := match text with
    | '+' :: rest => (false, rest)
    | '-' :: rest => (true, rest)
    | _ => (false, text)
  match unsigned.2 with
  | '+' :: _ => none
  | '-' :: _ => none
  | _ => some unsigned

/-- Reads an integer. -/
def readInteger (text : String) : IntegerText :=
  match splitSign? (trimmed text.toList) with
  | none => .malformed
  | some (negative, numeral) =>
    match plainInteger negative numeral with
    | .malformed =>
      match withoutLeadingZeros? numeral with
      | none => .malformed
      | some digits =>
        plainInteger negative (withoutZeroFraction ((withoutUnderscores? digits).getD digits))
    | result => result

/-! ## Other numbers -/

/-- The exponent at the end of a numeral. -/
def readExponent? : List Char → Option Int
  | [] => some 0
  | e :: rest =>
    if e = 'e' ∨ e = 'E' then
      let (negative, digits) : Bool × List Char := match rest with
        | '-' :: digits => (true, digits)
        | '+' :: digits => (false, digits)
        | digits => (false, digits)
      if digits.isEmpty || !digits.all Char.isDigit then none
      else
        let n : Int := numberOf digits
        some (if negative then -n else n)
    else none

/-- Reads a numeral without its sign. -/
def readMagnitude? (negative : Bool) (text : List Char) : Option Binary64 :=
  let whole := text.takeWhile Char.isDigit
  let rest := text.drop whole.length
  let fraction := match rest with
    | '.' :: tail => tail.takeWhile Char.isDigit
    | _ => []
  let after := match rest with
    | '.' :: tail => tail.drop fraction.length
    | _ => rest
  if whole.isEmpty && fraction.isEmpty then none
  else (readExponent? after).map fun power =>
    .ofDecimal negative (numberOf (whole ++ fraction)) (power - (fraction.length : Int))

/-- Reads a number of any notation from a text without blanks at its ends. -/
def readSigned? (text : List Char) : Option Binary64 :=
  let (negative, unsigned) : Bool × List Char := match text with
    | '-' :: rest => (true, rest)
    | '+' :: rest => (false, rest)
    | _ => (false, text)
  let word := String.ofList (unsigned.map Char.toLower)
  if word = "nan" then some .nan
  else if word = "inf" ∨ word = "infinity" then some (.infinity negative)
  else readMagnitude? negative unsigned

/-- Reads a number of any notation, with blanks at its ends and single underscores inside. -/
def readNumber? (text : String) : Option Binary64 :=
  let chars := text.toList
  match readSigned? (trimmed chars) with
  | some x => some x
  | none => (withoutUnderscores? chars).bind fun plain => readSigned? (trimmed plain)

end TreeDiff.Text
