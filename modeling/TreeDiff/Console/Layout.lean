/-
# Tables on a console

The columns of a table stand next to each other with two blanks between them.  If they are too wide
together, the widest ones become narrower until they are as wide as the next ones.
-/
import TreeDiff.Console.Markup
import TreeDiff.Console.Wrap

namespace TreeDiff.Layout

/-- How wide a console is. -/
def consoleWidth : Nat := 200

/-- A column: the blanks beside its cells, and its cells from the title down. -/
structure Column where
  left : Nat
  right : Nat
  /-- The width of the cells if it does not depend on them. -/
  fixed : Option Nat
  cells : List (List Char)

namespace Column

/-- The blanks beside a cell. -/
def padding (c : Column) : Nat := c.left + c.right

/-- The width that a column needs, up to a limit. -/
def natural (limit : Nat) (c : Column) : Nat :=
  let cells := match c.fixed with
    | some width => width
    | none => (c.cells.map TreeDiff.Column.naturalWidth).foldl max 0
  min limit (max 1 (cells + c.padding))

end Column

/-- The columns that rows of cells make up. -/
def columns (fixed : List (Option Nat)) (rows : List (List (List Char))) : List Column :=
  fixed.zipIdx.map fun (width, index) =>
    ⟨if index = 0 then 0 else 1, if index + 1 = fixed.length then 0 else 1, width,
      rows.map fun row => row.getD index []⟩

/-- A quotient rounded to the nearest natural number, a half to an even one. -/
def rounded (num den : Nat) : Nat :=
  let q := num / den
  let r := num % den
  if 2 * r < den then q
  else if den < 2 * r then q + 1
  else if q % 2 = 0 then q else q + 1

/-- Take a total from widths in equal shares, at most `limit` from each; `marked` tells which widths
give, and `count` how many of them are left. -/
def reduce (limit : Nat) : Nat → Nat → List (Nat × Bool) → List Nat
  | _, _, [] => []
  | total, count, (width, marked) :: rest =>
    if marked && 0 < count then
      let share := min limit (rounded total count)
      (width - share) :: reduce limit (total - share) (count - 1) rest
    else width :: reduce limit total count rest

/-- Widths together. -/
def total : List Nat → Nat
  | [] => 0
  | width :: rest => width + total rest

/-- Make the widest of the flexible columns as narrow as the second widest, again and again until
nothing exceeds the width of the console. -/
def collapse (limit : Nat) : Nat → List (Nat × Bool) → List Nat
  | 0, widths => widths.map (·.1)
  | fuel + 1, widths =>
    let taken := total (widths.map (·.1))
    let flexible := (widths.filter (·.2)).map (·.1)
    let widest := flexible.foldl max 0
    let second := (flexible.filter (· ≠ widest)).foldl max 0
    if taken ≤ limit ∨ widest = second then widths.map (·.1)
    else
      let marked := widths.map fun (w, isFlexible) => (w, isFlexible && w = widest)
      let count := (marked.filter (·.2)).length
      let excess := taken - limit
      let narrower := reduce (min excess (widest - second)) excess count marked
      collapse limit fuel (narrower.zip (widths.map (·.2)))

/-- The widths of columns on a console of a width. -/
def widths (limit : Nat) (cs : List Column) : List Nat :=
  let natural := cs.map (Column.natural limit)
  if total natural ≤ limit then natural
  else collapse limit (total natural) (natural.zip (cs.map fun c => c.fixed.isNone))

/-- The lines of a cell in a column. -/
def cellLines (width : Nat) (c : Column) (cell : List Char) : List (List Char) :=
  (TreeDiff.Column.lines (width - c.padding) cell).map fun line =>
    List.replicate c.left ' ' ++ line ++ List.replicate c.right ' '

/-- Lines with empty ones after them, or before them if they are titles. -/
def heightened (isTitle : Bool) (height width : Nat) (lines : List (List Char)) : List (List Char) :=
  let empty := List.replicate (height - lines.length) (List.replicate width ' ')
  if isTitle then empty ++ lines else lines ++ empty

/-- The lines of a row. -/
def rowLines (isTitle : Bool) (cs : List (Column × Nat)) (row : List (List Char)) :
    List (List Char) :=
  let cells := (cs.zip row).map fun ((c, width), cell) => (width, cellLines width c cell)
  let height := (cells.map (·.2.length)).foldl max 1
  let full := cells.map fun (width, lines) => heightened isTitle height width lines
  (List.range height).map fun n => full.flatMap fun lines => lines.getD n []

/-- The text of a table of plain cells; the first row holds the titles. -/
def render (limit : Nat) (fixed : List (Option Nat)) (rows : List (List (List Char))) :
    List Char :=
  let cs := columns fixed rows
  let cs := cs.zip (widths limit cs)
  let lines := rows.zipIdx.flatMap fun (row, index) => rowLines (index = 0) cs row
  lines.flatMap fun line => line ++ ['\n']

end TreeDiff.Layout

namespace TreeDiff

/-- What a console makes of marked-up cells and of tables. -/
class Console where
  /-- What a cell shows, unless its markup is wrong. -/
  read : String → Option String
  /-- The text of a table from what its cells show.  Columns may have a fixed width, and the first
  row holds the titles. -/
  layout : List (Option Nat) → List (List String) → String

instance Console.usual : Console where
  read cell := (Markup.plain? cell.toList).map fun chars =>
    String.ofList (chars.filter fun c => !Column.isDropped c)
  layout fixed rows :=
    String.ofList (Layout.render Layout.consoleWidth fixed (rows.map (·.map String.toList)))

end TreeDiff
