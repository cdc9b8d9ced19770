/-
# JSON values

A JSON value as this library reads and writes it: integers of any size are kept apart from other
numbers, and the members of an object keep their order.
-/
import TreeDiff.Number.Binary64

namespace TreeDiff

/-- A JSON value. -/
inductive Json where
  | null
  | bool (b : Bool)
  | int (n : Int)
  | float (x : Binary64)
  | str (s : String)
  | arr (items : List Json)
  /-- The members in document order, each name once. -/
  | obj (members : List (String × Json))
deriving Inhabited, Repr

/-- Put a value under a key: in the place of the key's present value, or else at the end. -/
def assocPut {κ ν : Type} [BEq κ] (key : κ) (value : ν) : List (κ × ν) → List (κ × ν)
  | [] => [(key, value)]
  | (k, v) :: rest => if k == key then (k, value) :: rest else (k, v) :: assocPut key value rest

namespace Json

/-- The member of an object with the given name. -/
def get? (json : Json) (name : String) : Option Json :=
  match json with
  | obj members => members.lookup name
  | _ => none

/-- A string or null. -/
def ofOption : Option String → Json
  | some s => str s
  | none => null

/-- A natural number. -/
def nat (n : Nat) : Json := int n

/-- An array of strings. -/
def strings (items : List String) : Json := arr (items.map str)

end Json

end TreeDiff
