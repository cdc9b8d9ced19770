/-
# Paths

A path is an anchor and the names that lead on from it.  Empty names and single dots say nothing and
are dropped when a path is read; double dots stay, because what they lead to depends on the files.
-/

namespace TreeDiff

/-- Where a path starts. -/
inductive Anchor where
  /-- At the working directory. -/
  | here
  | root
  /-- At a root written with exactly two slashes, which systems may treat in their own way. -/
  | doubleRoot
deriving DecidableEq, Repr, Inhabited

/-- How an anchor is written. -/
def Anchor.text : Anchor → String
  | here => ""
  | root => "/"
  | doubleRoot => "//"

/-- A path. -/
structure Path where
  anchor : Anchor
  names : List String
deriving DecidableEq, Repr, Inhabited

namespace Path

/-- The parts of a text between slashes. -/
def splitSlashes : List Char → List (List Char)
  | [] => [[]]
  | c :: rest =>
    if c = '/' then [] :: splitSlashes rest
    else match splitSlashes rest with
      | [] => [[c]]
      | part :: parts => (c :: part) :: parts

/-- Whether a part between slashes leads somewhere. -/
def isName (part : List Char) : Bool := part ≠ [] && part ≠ ['.']

/-- The anchor of a text with the given number of leading slashes. -/
def anchorOf : Nat → Anchor
  | 0 => .here
  | 2 => .doubleRoot
  | _ => .root

/-- The path that a text denotes. -/
def ofText (text : String) : Path :=
  let chars := text.toList
  ⟨anchorOf (chars.takeWhile (· = '/')).length,
    ((splitSlashes chars).filter isName).map String.ofList⟩

/-- The path as text; the working directory itself is a dot. -/
def text (p : Path) : String :=
  if p.anchor = .here ∧ p.names = [] then "."
  else p.anchor.text ++ "/".intercalate p.names

/-- Whether the path does not depend on the working directory. -/
def isAbsolute (p : Path) : Bool := p.anchor ≠ .here

/-- The path that a second path leads to from the first. -/
def join (p q : Path) : Path :=
  if q.isAbsolute then q else ⟨p.anchor, p.names ++ q.names⟩

/-- The path that a text leads to from a path. -/
def child (p : Path) (text : String) : Path := p.join (ofText text)

/-- The last name; empty for a path without names. -/
def name (p : Path) : String := p.names.getLast?.getD ""

/-- The path without its last name. -/
def parent (p : Path) : Path := ⟨p.anchor, p.names.dropLast⟩

/-- The last name, cut before the last dot that has something on both of its sides. -/
def splitName (p : Path) : List Char × List Char :=
  let chars := p.name.toList
  let tail := (chars.reverse.takeWhile (· ≠ '.')).reverse
  let stem := chars.take (chars.length - tail.length - 1)
  if tail.length < chars.length ∧ stem ≠ [] ∧ tail ≠ [] then (stem, '.' :: tail) else (chars, [])

/-- The ending of the last name, with its dot. -/
def suffix (p : Path) : String := String.ofList p.splitName.2

/-- The last name without its ending. -/
def stem (p : Path) : String := String.ofList p.splitName.1

end Path

/-- The directories that a tilde stands for. -/
structure Homes where
  /-- The home of the user. -/
  own : String
  /-- The homes of other accounts. -/
  accounts : List (String × String)
deriving Repr

namespace Homes

/-- A home as it stands in front of the rest of a path: an empty one is the root. -/
def rooted (home : String) : String := if home.isEmpty then "/" else home

/-- The home that a first name with a tilde stands for. -/
def of? (homes : Homes) (name : String) : Option String :=
  let account := name.drop 1
  if account.isEmpty then some (rooted homes.own)
  else (homes.accounts.lookup account.toString).map rooted

end Homes

/-- A name with a tilde that stands for no known home. -/
structure UnknownHome where
  name : String
deriving DecidableEq, Repr

/-- The path with a tilde at its start replaced by the home that it stands for. -/
def Path.expandHome (homes : Homes) (p : Path) : Except UnknownHome Path :=
  match p.anchor, p.names with
  | .here, first :: rest =>
    if first.toList.head? = some '~' then
      match homes.of? first with
      | none => .error ⟨first⟩
      | some home =>
        if home.toList.head? = some '~' then .error ⟨first⟩
        else
          let start := Path.ofText home
          .ok ⟨start.anchor, start.names ++ rest⟩
    else .ok p
  | _, _ => .ok p

end TreeDiff
