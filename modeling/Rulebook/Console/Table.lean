import Rulebook.Console.Markup
import Rulebook.Console.Wrap
import Rulebook.Text.Basic

/-!
# Tables on a terminal

A table has a title, a row of headings and rows of cells between drawn lines. Each column is as
wide as its widest cell, with a blank on either side. A line feed in a text begins another line of
its cell or of the title, a tab leads to the next of the stops, and some control characters are not
shown. A title that is wider than the table is wrapped.
-/

namespace Rulebook.Console

/-- The side of a column at which its cells stand. -/
inductive Side where
  | left | right
  deriving DecidableEq, Repr

structure Column where
  heading : String
  side : Side := .left

/-- A number of copies of a text. -/
def repeated (n : Nat) (s : String) : String := String.join (List.replicate n s)

/-! ### Texts in fields -/

/-- A control character that is not shown: bell, backspace, vertical tab, form feed and carriage
return. -/
def isHidden (c : Char) : Bool := c.toNat ∈ [0x07, 0x08, 0x0b, 0x0c, 0x0d]

def shown (s : String) : List Char := s.toList.filter fun c => !isHidden c

/-- How many cells tab stops are apart. -/
def tabWidth : Nat := 8

/-- The pieces of a line between its tabs, with blanks up to the next stop for each tab; `column` is
where the first piece begins. -/
def untabbed (column : Nat) : List (List Char) → List Char
  | [] => []
  | [last] => last
  | piece :: rest =>
    let filled := piece ++ [' ']
    let reached := column + cells filled
    let blanks := (tabWidth - reached % tabWidth) % tabWidth
    filled ++ List.replicate blanks ' ' ++ untabbed (reached + blanks) rest

/-- A line without blanks at its end, as long as it has more characters than the field has cells. -/
def withoutExcess (width : Nat) (line : List Char) : List Char :=
  line.take (max width (Text.trimRight line).length)

/-- The lines of a field that a text fills. -/
def linesOf (overflow : Overflow) (width : Nat) (s : String) : List (List Char) :=
  (Text.pieces '\n' (shown s)).flatMap fun line =>
    (wrapped overflow width (untabbed 0 (Text.pieces '\t' line))).map (withoutExcess width)

/-- The cells that a text asks for: those of its longest line. -/
def widthOf (s : String) : Nat :=
  ((Text.lines (String.ofList (shown s))).map Text.width).foldl max 0

/-- The beginning of a line that takes at most a number of cells. -/
def fitting (room : Nat) : List Char → List Char
  | [] => []
  | c :: cs =>
    if Text.cellsOf c ≤ room then c :: fitting (room - Text.cellsOf c) cs else []

/-- A line as a field shows it: one that is too wide ends with a mark in the last cell. -/
def cutTo (width : Nat) (line : List Char) : List Char :=
  if width < cells line then
    let front := fitting (width - 1) line
    front ++ List.replicate (width - 1 - cells front) ' ' ++ ['…']
  else line

def Side.place (side : Side) (width : Nat) (line : List Char) : String :=
  let fitted := cutTo width line
  let blanks := repeated (width - cells fitted) " "
  match side with
  | left => String.ofList fitted ++ blanks
  | right => blanks ++ String.ofList fitted

/-- A line without the blanks at its end, in the middle of a field. An odd blank goes to the
right. -/
def centred (width : Nat) (line : List Char) : String :=
  let trimmed := Text.trimRight line
  let blanks := width - cells trimmed
  repeated (blanks / 2) " " ++ String.ofList trimmed ++ repeated (blanks - blanks / 2) " "

/-! ### Rows and lines across -/

/-- The signs of a line across a table. -/
structure Rule where
  left : String
  bar : String
  joint : String
  right : String

/-- The line above the headings. -/
def Rule.top : Rule := ⟨"┏", "━", "┳", "┓"⟩

/-- The line below the headings. -/
def Rule.middle : Rule := ⟨"┡", "━", "╇", "┩"⟩

/-- The line below the rows. -/
def Rule.bottom : Rule := ⟨"└", "─", "┴", "┘"⟩

/-- A line across columns of some widths. -/
def Rule.draw (r : Rule) (widths : List Nat) : String :=
  r.left ++ r.joint.intercalate (widths.map fun w => repeated (w + 2) r.bar) ++ r.right

def rowLine (bar : String) (columns : List Column) (widths : List Nat)
    (lines : List (List Char)) : String :=
  let placed := ((columns.zip widths).zip lines).map fun ((column, width), line) =>
    " " ++ column.side.place width line ++ " "
  bar ++ bar.intercalate placed ++ bar

def row (bar : String) (columns : List Column) (widths : List Nat) (cells : List String) :
    List String :=
  let blocks := (widths.zip cells).map fun (width, cell) => linesOf .cut width cell
  let height := (blocks.map List.length).foldl max 0
  (List.range height).map fun i => rowLine bar columns widths (blocks.map (·.getD i []))

def widthsOf (columns : List Column) (rows : List (List String)) : List Nat :=
  columns.zipIdx.map fun (column, i) =>
    ((column.heading :: rows.map (·.getD i "")).map widthOf).foldl max 0

/-- The lines of a table whose texts have no markup. -/
def plainTable (title : String) (columns : List Column) (rows : List (List String)) : List String :=
  let widths := widthsOf columns rows
  let total := widths.foldl (fun total w => total + w + 3) 1
  (linesOf .fold total title).map (centred total) ++ [Rule.top.draw widths] ++
    row "┃" columns widths (columns.map (·.heading)) ++ [Rule.middle.draw widths] ++
    rows.flatMap (row "│" columns widths) ++ [Rule.bottom.draw widths]

/-- The lines of a table, or the complaint about a text in it. Its headings have no markup. -/
def table (m : Markup) (title : String) (columns : List Column) (rows : List (List String)) :
    Except String (List String) := do
  let rows ← rows.mapM (·.mapM m.render)
  return plainTable (← m.render title) columns rows

end Rulebook.Console
