/-
# Values

The values that settings are read from: what a YAML document, a JSON text or a program can give.
Unlike in JSON, the keys of a map are values of any kind.
-/
import TreeDiff.Json.Basic
import TreeDiff.Value.Moment

namespace TreeDiff

/-- A value. -/
inductive Value where
  | null
  | bool (b : Bool)
  | int (n : Int)
  | float (x : Binary64)
  | text (s : String)
  | bytes (bs : List UInt8)
  | date (d : Date)
  | moment (m : Moment)
  | list (items : List Value)
  /-- A key with its value that stands as an item of a list. -/
  | pair (key value : Value)
  | set (items : List Value)
  /-- The entries in their order, each key once. -/
  | map (entries : List (Value × Value))
  /-- A map or a list that stands somewhere inside itself; it is not entered again. -/
  | again (isMap : Bool)
deriving Inhabited, Repr

namespace Value

/-- The number that a value counts as when it is a key. -/
def keyNumber? : Value → Option Binary64
  | .bool b => some (.ofInt (if b then 1 else 0))
  | .int n => some (.ofInt n)
  | .float x => some x
  | _ => none

/-- The integer that a value counts as when it is a key. -/
def keyInt? : Value → Option Int
  | .bool b => some (if b then 1 else 0)
  | .int n => some n
  | .float x => x.toInt?
  | _ => none

/-- The instant that a value is when it is a key. -/
def keyInstant? : Value → Option Int
  | .moment m => m.instant?
  | _ => none

/-- Whether two keys are the same.  Numbers are compared by value, truth values counting as 0 and 1,
and moments by instant if their distances from universal time are known; maps and lists are never
keys. -/
def sameKey : Value → Value → Bool
  | .null, .null => true
  | .text a, .text b => a == b
  | .bytes a, .bytes b => a == b
  | .date a, .date b => a == b
  | .moment a, .moment b => if a.instant?.isSome then a.instant? == b.instant? else a == b
  | .float (.infinity a), .float (.infinity b) => a == b
  | a, b =>
    match a.keyInt?, b.keyInt? with
    | some m, some n => m == n
    | none, none =>
      match a.keyNumber?, b.keyNumber? with
      | some x, some y => x.le y && y.le x
      | _, _ => false
    | _, _ => false

/-- Put a value under a key: in the place of the present value of the key, or else at the end. -/
def put (key value : Value) : List (Value × Value) → List (Value × Value)
  | [] => [(key, value)]
  | (k, v) :: rest => if sameKey k key then (k, value) :: rest else (k, v) :: put key value rest

/-- The value under a key that is a text. -/
def lookup (name : String) : List (Value × Value) → Option Value
  | [] => none
  | (.text k, v) :: rest => if k = name then some v else lookup name rest
  | _ :: rest => lookup name rest

/-- Whether a value counts as nothing: null, false, zero, and what is empty. -/
def isFalsy : Value → Bool
  | .null => true
  | .bool b => !b
  | .int n => n = 0
  | .float x => x.toInt? = some 0
  | .text s => s.isEmpty
  | .bytes bs => bs.isEmpty
  | .list items => items.isEmpty
  | .set items => items.isEmpty
  | .map entries => entries.isEmpty
  | _ => false

mutual

/-- The value that a JSON value denotes. -/
def ofJson : Json → Value
  | .null => .null
  | .bool b => .bool b
  | .int n => .int n
  | .float x => .float x
  | .str s => .text s
  | .arr items => .list (ofJsonItems items)
  | .obj members => .map (ofJsonMembers members)

/-- The values that JSON items denote. -/
def ofJsonItems : List Json → List Value
  | [] => []
  | json :: rest => ofJson json :: ofJsonItems rest

/-- The entries that JSON members denote. -/
def ofJsonMembers : List (String × Json) → List (Value × Value)
  | [] => []
  | (name, json) :: rest => (.text name, ofJson json) :: ofJsonMembers rest

end

end Value

end TreeDiff
