/-
# Numbers of the binary64 format

Every finite number of the IEEE 754 binary64 format is a whole multiple of 2⁻¹⁰⁷⁴.  A number is
therefore kept as its sign and its count of these units, so that comparing and rounding are
ordinary arithmetic on natural numbers and every operation is exact up to its one final rounding.
-/

namespace TreeDiff

/-- A number of the binary64 format.  The sign is kept apart from the magnitude because the format
has two zeros. -/
inductive Binary64 where
  /-- The result of an undefined operation. -/
  | nan
  /-- Beyond the largest finite number, on one side. -/
  | infinity (negative : Bool)
  /-- A finite number: `units` times 2⁻¹⁰⁷⁴, with a sign. -/
  | finite (negative : Bool) (units : Nat)
deriving DecidableEq, Repr, Inhabited

namespace Binary64

/-- The quotient `num / den` rounded to the nearest integer, a half to the even neighbour. -/
def roundDiv (num den : Nat) : Nat :=
  let low := num / den
  let twice := 2 * (num % den)
  if twice < den then low
  else if den < twice then low + 1
  else if low % 2 = 0 then low else low + 1

/-- How many binary places of a magnitude of `units` units lie below its 53 leading ones. -/
def excess (units : Nat) : Nat := units.log2 + 1 - 53

/-- The magnitude of at most 53 significant binary places that is nearest to `num / den` units. -/
def nearestUnits (num den : Nat) : Nat :=
  let places := excess (num / den)
  roundDiv num (den * Nat.pow 2 places) * Nat.pow 2 places

/-- One more than the largest finite magnitude after rounding, in units. -/
def unitsBound : Nat := Nat.pow 2 2098

/-- How many units make one. -/
def unitsPerOne : Nat := Nat.pow 2 1074

/-- The number nearest to `num / den` units. -/
def ofUnits (negative : Bool) (num den : Nat) : Binary64 :=
  let units := nearestUnits num den
  if units < unitsBound then .finite negative units else .infinity negative

/-- The number nearest to the quotient `num / den`. -/
def ofRatio (negative : Bool) (num den : Nat) : Binary64 :=
  ofUnits negative (num * unitsPerOne) den

/-- The number nearest to an integer. -/
def ofInt (n : Int) : Binary64 := ofRatio (n < 0) n.natAbs 1

/-- Zero, with the sign that plain arithmetic gives it. -/
def zero : Binary64 := .finite false 0

/-- One. -/
def one : Binary64 := .finite false unitsPerOne

/-- The number nearest to `digits` times ten to the `exponent`.  Exponents that lie clear of the
range of the format are settled without computing the power. -/
def ofDecimal (negative : Bool) (digits : Nat) (exponent : Int) : Binary64 :=
  if digits = 0 then .finite negative 0
  else match exponent with
    | .ofNat up =>
      if 400 < up then .infinity negative else ofRatio negative (digits * Nat.pow 10 up) 1
    | .negSucc down =>
      if digits.log2 + 400 < down then .finite negative 0
      else ofRatio negative digits (Nat.pow 10 (down + 1))

/-- The bit that stands for a negative sign. -/
def signBit : Nat := 0x8000000000000000

/-- The bit pattern of the number in the interchange format. -/
def toBits : Binary64 → Nat
  | .nan => 0x7ff8000000000000
  | .infinity negative => (if negative then signBit else 0) + 0x7ff0000000000000
  | .finite negative units =>
    let places := excess units
    (if negative then signBit else 0) + places * 0x10000000000000 + units / Nat.pow 2 places

/-- The number as a signed count of units; an infinity counts as the bound that no finite number
reaches.  Undefined for `nan`, which is not comparable. -/
def signedUnits? : Binary64 → Option Int
  | .nan => none
  | .infinity negative => some (if negative then -(unitsBound : Int) else unitsBound)
  | .finite negative units => some (if negative then -(units : Int) else units)

/-- Whether one number is at most another; false as soon as one of them is `nan`. -/
def le (a b : Binary64) : Bool :=
  match a.signedUnits?, b.signedUnits? with
  | some x, some y => x ≤ y
  | _, _ => false

/-- The integer that the number equals, if it is finite and whole. -/
def toInt? : Binary64 → Option Int
  | .finite negative units =>
    if units % unitsPerOne = 0 then
      let n : Int := (units / unitsPerOne : Nat)
      some (if negative then -n else n)
    else none
  | _ => none

/-- Whether the number is neither infinite nor `nan`. -/
def isFinite : Binary64 → Bool
  | .finite _ _ => true
  | _ => false

/-- The number with its sign turned. -/
def neg : Binary64 → Binary64
  | .nan => .nan
  | .infinity negative => .infinity (!negative)
  | .finite negative units => .finite (!negative) units

/-- The sum of two numbers, rounded once. -/
def add : Binary64 → Binary64 → Binary64
  | .nan, _ => .nan
  | _, .nan => .nan
  | .infinity a, .infinity b => if a = b then .infinity a else .nan
  | .infinity a, _ => .infinity a
  | _, .infinity b => .infinity b
  | .finite a x, .finite b y =>
    if a = b then ofUnits a (x + y) 1
    else if x = y then zero
    else if y < x then ofUnits a (x - y) 1
    else ofUnits b (y - x) 1

/-- The product of a number and a natural number, rounded once. -/
def scale (n : Nat) : Binary64 → Binary64
  | .nan => .nan
  | .infinity negative => if n = 0 then .nan else .infinity negative
  | .finite negative units => ofUnits negative (units * n) 1

/-- The bit pattern as sixteen hexadecimal digits. -/
def toHex (x : Binary64) : String :=
  let digits := Nat.toDigits 16 x.toBits
  String.ofList (List.replicate (16 - digits.length) '0' ++ digits)

end Binary64

end TreeDiff
