/-
# Days and moments

Days of the calendar are numbered, so that moments are compared across distances from universal
time.
-/

namespace TreeDiff

/-- A day of the calendar. -/
structure Date where
  year : Nat
  month : Nat
  day : Nat
deriving DecidableEq, Repr, Inhabited

namespace Date

/-- Whether a year has a leap day. -/
def isLeap (year : Nat) : Bool := year % 4 = 0 && (year % 100 ≠ 0 || year % 400 = 0)

/-- How many days a month has. -/
def daysIn (year month : Nat) : Nat :=
  if month = 2 then (if isLeap year then 29 else 28)
  else if month = 4 ∨ month = 6 ∨ month = 9 ∨ month = 11 then 30 else 31

/-- How many days there are before a year, from the first year on. -/
def daysBefore (year : Nat) : Nat :=
  let past := year - 1
  365 * past + past / 4 - past / 100 + past / 400

/-- How many days of a year there are before a month. -/
def daysBeforeMonth (year : Nat) : Nat → Nat
  | month + 2 => daysBeforeMonth year (month + 1) + daysIn year (month + 1)
  | _ => 0

/-- The number of a day, from the first day of the first year on. -/
def number (d : Date) : Nat := daysBefore d.year + daysBeforeMonth d.year d.month + d.day

end Date

/-- A moment of a day, with its distance from universal time if that is known. -/
structure Moment where
  date : Date
  hour : Nat
  minute : Nat
  second : Nat
  microsecond : Nat
  /-- The distance from universal time in seconds. -/
  offset : Option Int
deriving DecidableEq, Repr, Inhabited

/-- The instant of universal time in microseconds, if the distance from it is known. -/
def Moment.instant? (m : Moment) : Option Int :=
  m.offset.map fun offset =>
    ((((m.date.number * 24 + m.hour) * 60 + m.minute) * 60 + m.second : Nat) - offset) * 1000000 +
      m.microsecond

end TreeDiff
