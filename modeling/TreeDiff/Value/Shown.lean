/-
# How values are shown

A text alone is shown as it is; inside a map or a list it stands in quotes.  Everything else is
shown alike in both places, moments and days aside.  Very long integers are not shown at all.
-/
import TreeDiff.Number.Shortest
import TreeDiff.Text.Numeral
import TreeDiff.Text.Quoted
import TreeDiff.Value.Basic

namespace TreeDiff

/-- A natural number with at least `width` digits. -/
def padded (width n : Nat) : String := String.ofList (Binary64.paddedDigits width n)

namespace Date

/-- The day as it is shown alone. -/
def text (d : Date) : String := s!"{padded 4 d.year}-{padded 2 d.month}-{padded 2 d.day}"

/-- The day inside a container. -/
def shown (d : Date) : String := s!"datetime.date({d.year}, {d.month}, {d.day})"

end Date

namespace Moment

/-- A distance from universal time as hours and minutes. -/
def offsetText (seconds : Int) : String :=
  let sign := if seconds < 0 then "-" else "+"
  let minutes := seconds.natAbs / 60
  s!"{sign}{padded 2 (minutes / 60)}:{padded 2 (minutes % 60)}"

/-- The moment as it is shown alone. -/
def text (m : Moment) : String :=
  let clock := s!"{padded 2 m.hour}:{padded 2 m.minute}:{padded 2 m.second}"
  let fraction := if m.microsecond = 0 then "" else s!".{padded 6 m.microsecond}"
  let offset := match m.offset with
    | some seconds => offsetText seconds
    | none => ""
  s!"{m.date.text} {clock}{fraction}{offset}"

/-- A distance from universal time as days and a part of a day. -/
def offsetShown (seconds : Int) : String :=
  if seconds = 0 then "datetime.timezone.utc"
  else
    let days := Int.fdiv seconds 86400
    let rest := Int.fmod seconds 86400
    let parts := (if days = 0 then [] else [s!"days={days}"]) ++
      (if rest = 0 then [] else [s!"seconds={rest}"])
    let inner := ", ".intercalate parts
    s!"datetime.timezone(datetime.timedelta({inner}))"

/-- The moment inside a container; seconds and their fraction are left out when they are zero. -/
def shown (m : Moment) : String :=
  let fine := if m.microsecond ≠ 0 then [m.second, m.microsecond]
    else if m.second ≠ 0 then [m.second] else []
  let parts := [m.date.year, m.date.month, m.date.day, m.hour, m.minute] ++ fine
  let offset := match m.offset with
    | some seconds => [s!"tzinfo={offsetShown seconds}"]
    | none => []
  let inner := ", ".intercalate (parts.map toString ++ offset)
  s!"datetime.datetime({inner})"

end Moment

namespace Value

/-- Parts between two brackets, separated by commas. -/
def enclosed (opening closing : String) (parts : List String) : String :=
  opening ++ ", ".intercalate parts ++ closing

mutual

/-- The value as it is shown inside a container. -/
def shown : Value → String
  | .null => "None"
  | .bool b => if b then "True" else "False"
  | .int n => toString n
  | .float x => x.toText
  | .text s => Text.quoted s
  | .bytes bs => Text.quotedBytes bs
  | .date d => d.shown
  | .moment m => m.shown
  | .list items => enclosed "[" "]" (shownItems items)
  | .pair key value => enclosed "(" ")" [shown key, shown value]
  | .set items => if items.isEmpty then "set()" else enclosed "\x7b" "\x7d" (shownItems items)
  | .map entries => enclosed "\x7b" "\x7d" (shownEntries entries)
  | .again isMap => if isMap then "\x7b...\x7d" else "[...]"

/-- The items of a container. -/
def shownItems : List Value → List String
  | [] => []
  | item :: rest => shown item :: shownItems rest

/-- The entries of a map. -/
def shownEntries : List (Value × Value) → List String
  | [] => []
  | (key, value) :: rest => (shown key ++ ": " ++ shown value) :: shownEntries rest

end

/-- The value as it is shown alone. -/
def display : Value → String
  | .text s => s
  | .date d => d.text
  | .moment m => m.text
  | v => v.shown

mutual

/-- Whether a value can be shown: an integer in it with too many digits cannot be written out. -/
def isShowable : Value → Bool
  | .int n => n.natAbs < 10 ^ Text.maxDigits
  | .list items => areShowable items
  | .pair key value => isShowable key && isShowable value
  | .set items => areShowable items
  | .map entries => entriesShowable entries
  | _ => true

/-- Whether all items of a container can be shown. -/
def areShowable : List Value → Bool
  | [] => true
  | item :: rest => isShowable item && areShowable rest

/-- Whether all entries of a map can be shown. -/
def entriesShowable : List (Value × Value) → Bool
  | [] => true
  | (key, value) :: rest => isShowable key && isShowable value && entriesShowable rest

end

end Value

end TreeDiff
