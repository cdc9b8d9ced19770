/-
# The shortest decimal text of a number

Among the decimals that round to a given binary64 number there is a least count of digits.  Of the
decimals with that count the nearest to the number is chosen.  On each decimal grid only the two
neighbours of the number need to be tried: when some point of the grid rounds to the number, one of
the neighbours does.
-/
import TreeDiff.Number.Binary64

namespace TreeDiff

/-- A decimal number `digits · 10 ^ exponent`. -/
structure Decimal where
  /-- The significant digits, read as one natural number. -/
  digits : Nat
  /-- The power of ten of the last digit. -/
  exponent : Int
deriving DecidableEq, Repr

namespace Decimal

/-- The digits, most significant first. -/
def digitChars (d : Decimal) : List Char := Nat.toDigits 10 d.digits

/-- The power of ten of the first digit. -/
def leading (d : Decimal) : Int := d.exponent + (d.digitChars.length : Int) - 1

/-- The decimal without trailing zero digits. -/
def trim (d : Decimal) : Decimal :=
  let zeros := (d.digitChars.reverse.takeWhile (· = '0')).length
  if d.digits = 0 then d else ⟨d.digits / Nat.pow 10 zeros, d.exponent + zeros⟩

end Decimal

namespace Binary64

/-- The quotient of a magnitude by a power of ten, as numerator and denominator. -/
def overPowerOfTen (units : Nat) : Int → Nat × Nat
  | .ofNat up => (units, unitsPerOne * Nat.pow 10 up)
  | .negSucc down => (units * Nat.pow 10 (down + 1), unitsPerOne)

/-- Whether a magnitude is at least a power of ten. -/
def atLeastPowerOfTen (units : Nat) (power : Int) : Bool :=
  let (num, den) := overPowerOfTen units power
  den ≤ num

/-- The power of ten of the first digit of a positive magnitude: an estimate from its binary
length, mended by at most one on either side. -/
def leadingPower (units : Nat) : Int :=
  let estimate := ((units.log2 : Int) - 1074) * 30103 / 100000
  if atLeastPowerOfTen units (estimate + 1) then estimate + 1
  else if atLeastPowerOfTen units estimate then estimate
  else estimate - 1

/-- The decimal with the given power of its last digit that rounds to a magnitude, the nearer of the
two neighbours if both do, the even one on a tie. -/
def neighbour? (units : Nat) (power : Int) : Option Decimal :=
  let (num, den) := overPowerOfTen units power
  let low := num / den
  let twice := 2 * (num % den)
  let reads (digits : Nat) : Bool := ofDecimal false digits power = .finite false units
  let lowFirst := twice < den || (twice = den && low % 2 = 0)
  let order := if lowFirst then [low, low + 1] else [low + 1, low]
  (order.find? reads).map fun digits => ⟨digits, power⟩

/-- The shortest decimal that rounds to a positive magnitude.  Seventeen digits always suffice, so
the exact value stands last only to make the search total. -/
def shortest (units : Nat) : Decimal :=
  let first := leadingPower units
  let powers := (List.range 17).map fun (n : Nat) => first - (n : Int)
  match powers.findSome? (neighbour? units) with
  | some d => d.trim
  | none => ⟨units * Nat.pow 5 1074, -1074⟩

/-- A natural number in decimal with at least `width` digits. -/
def paddedDigits (width n : Nat) : List Char :=
  let digits := Nat.toDigits 10 n
  List.replicate (width - digits.length) '0' ++ digits

/-- The text of a decimal: positional when the first digit stands for 10⁻⁴ up to 10¹⁵, with an
exponent of at least two digits otherwise. -/
def decimalText (d : Decimal) : List Char :=
  let digits := d.digitChars
  let first := d.leading
  if -4 ≤ first ∧ first < 16 then
    if first < 0 then
      "0.".toList ++ List.replicate (first.natAbs - 1) '0' ++ digits
    else
      let whole := first.toNat + 1
      let padded := digits ++ List.replicate (whole - digits.length) '0'
      let rest := padded.drop whole
      padded.take whole ++ '.' :: (if rest.isEmpty then ['0'] else rest)
  else
    let mantissa := match digits with
      | [] => ['0']
      | [c] => [c]
      | c :: rest => c :: '.' :: rest
    mantissa ++ 'e' :: (if first < 0 then '-' else '+') :: paddedDigits 2 first.natAbs

/-- The text of a number: the shortest decimal that reads back, with a fraction or an exponent so
that it is not taken for an integer. -/
def toText : Binary64 → String
  | .nan => "nan"
  | .infinity negative => if negative then "-inf" else "inf"
  | .finite negative units =>
    let magnitude := if units = 0 then ['0', '.', '0'] else decimalText (shortest units)
    String.ofList (if negative then '-' :: magnitude else magnitude)

end Binary64

end TreeDiff
