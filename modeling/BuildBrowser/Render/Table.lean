import BuildBrowser.Render.Output
import BuildBrowser.Text.Blank

/-!
# Tables — columns of text

A table has a heading and a row of cells per line. A cell that is longer than its column's cap loses
its end to an ellipsis. Every column is as wide as its longest cell or heading; cells are padded to
that width, painted, joined by two spaces, and the line loses the blanks at its end.

A width of padding has 16 bits. No line of a table is laid out if a column that is padded is wider.
-/

namespace BuildBrowser

/-- The side of a cell that its text keeps to. -/
inductive Side where
  | left
  | right
  deriving DecidableEq, Repr

/-- A column: its heading, the side of its texts, whether they are secondary, and the length that
its cells are cut to, if any. A cap of zero is none. -/
structure Column where
  heading : List Char
  side : Side
  muted : Bool
  cap : Option Nat
  deriving DecidableEq, Repr

namespace Column

/-- A column of texts. -/
def left (heading : String) : Column :=
  ⟨heading.toList, .left, false, none⟩

/-- A column of numbers. -/
def right (heading : String) : Column :=
  ⟨heading.toList, .right, false, none⟩

/-- A column of secondary texts. -/
def secondary (heading : String) : Column :=
  ⟨heading.toList, .left, true, none⟩

/-- The column with its cells cut to a length. -/
def withCap (column : Column) (cap : Nat) : Column :=
  { column with cap := some cap }

/-- A cell, cut to the cap of its column. -/
def fit (column : Column) (cell : List Char) : List Char :=
  match column.cap with
  | some (n + 1) => if cell.length > n + 1 then cell.take n ++ ['…'] else cell
  | _ => cell

end Column

/-- The greatest width of padding. -/
def maxWidth : Nat := 65535

/-- A text with blanks up to a width, on the side that it does not keep to. -/
def fill (side : Side) (width : Nat) (text : List Char) : List Char :=
  let blanks := List.replicate (width - text.length) ' '
  match side with
  | .left => text ++ blanks
  | .right => blanks ++ text

/-- A text padded to a width, if there is padding of that width. A text that keeps to the left is not
padded if it is the last of its line. -/
def pad (side : Side) (width : Nat) (isLast : Bool) (text : List Char) : Option (List Char) :=
  if side = .left ∧ isLast then some text
  else if width ≤ maxWidth then some (fill side width text)
  else none

/-- Cells joined by two spaces. -/
def joinCells (cells : List (List Char)) : List Char :=
  [' ', ' '].intercalate cells

/-- Columns with the rows of their cells. -/
structure Table where
  columns : List Column
  rows : List (List (List Char))
  deriving DecidableEq, Repr

namespace Table

/-- A row with one cell per column, each cut to its column's cap: cells that are missing are empty,
and cells beyond the columns are dropped. -/
def fitRow : List Column → List (List Char) → List (List Char)
  | [], _ => []
  | column :: columns, [] => column.fit [] :: fitRow columns []
  | column :: columns, cell :: cells => column.fit cell :: fitRow columns cells

/-- The rows of a table, with one cell per column. -/
def fitted (table : Table) : List (List (List Char)) :=
  table.rows.map (fitRow table.columns)

/-- The widths of columns: of each, the longest of its heading and its cells. -/
def widths (table : Table) : List Nat :=
  table.fitted.foldl (fun ws row => List.zipWith (fun w cell => max w cell.length) ws row)
    (table.columns.map (·.heading.length))

/-- The cells of a line: each padded to the width of its column, and painted. -/
def cells (ink : Column → List Char → List Char) :
    List Column → List Nat → List (List Char) → Option (List (List Char))
  | column :: columns, width :: widths, text :: texts => do
    let padded ← pad column.side width columns.isEmpty text
    return ink column padded :: (← cells ink columns widths texts)
  | _, _, _ => some []

/-- The paint of a row's cell. -/
def rowInk (colour : Colour) (column : Column) (text : List Char) : List Char :=
  if column.muted then paint colour .muted text else text

/-- A line of a table: its cells joined, without the blanks at its end. -/
def line (table : Table) (ink : Column → List Char → List Char) (texts : List (List Char)) :
    Option (List Char) :=
  (cells ink table.columns table.widths texts).map fun cells =>
    Text.dropEnd Text.isBlank (joinCells cells)

/-- The lines of a table: the headings, then the rows. -/
def lines (colour : Colour) (table : Table) : List (Option (List Char)) :=
  table.line (fun _ => paint colour .header) (table.columns.map (·.heading)) ::
    table.fitted.map (table.line (rowInk colour))

/-- A table, line by line. -/
def render (colour : Colour) (table : Table) : Rendering :=
  .ofLines (table.lines colour)

end Table

end BuildBrowser
