import CoffWorks.Report.Basic
import CoffWorks.Text.Width

namespace CoffWorks

/-- The characters of borders, all of one column. -/
structure Border where
  horizontal : Bytes
  vertical : Bytes
  topLeft : Bytes
  top : Bytes
  topRight : Bytes
  left : Bytes
  cross : Bytes
  right : Bytes
  bottomLeft : Bytes
  bottom : Bytes
  bottomRight : Bytes

namespace Border

/-- Borders that are only blank. -/
def hidden : Border := ⟨" ", " ", " ", " ", " ", " ", " ", " ", " ", " ", " "⟩

def rounded : Border := ⟨"─", "│", "╭", "┬", "╮", "├", "┼", "┤", "╰", "┴", "╯"⟩

end Border

namespace Grid

/-- The lines of a cell with a space on both sides. -/
def cellLines (cell : Bytes) : List Bytes := Text.screenLines 1 cell

/-- The larger of both at each place. -/
def maxEach : List Nat → List Nat → List Nat
  | a :: as, b :: bs => max a b :: maxEach as bs
  | as, [] => as
  | [], bs => bs

def cellWidth (cell : Bytes) : Nat := ((cellLines cell).map Text.lineWidth).foldl max 0

/-- The width of each column, with the spaces. -/
def columnWidths (g : Grid) : List Nat :=
  (g.columns :: g.rows).foldl (fun ws row => maxEach ws (row.map cellWidth)) []

/-- A line between rows. -/
def rule (b : Border) (left middle right : Bytes) (widths : List Nat) : Bytes :=
  left ++ Bytes.join middle (widths.map b.horizontal.times) ++ right

/-- The lines of a row; all cells have as many as the highest. -/
def rowLines (b : Border) (widths : List Nat) (row : List Bytes) : List Bytes :=
  let cells := row.map cellLines
  let height := (cells.map List.length).foldl max 1
  (List.range height).map fun i =>
    let parts := (cells.zip widths).map fun c => Text.padTo c.2 ((c.1[i]?).getD .empty)
    b.vertical ++ Bytes.join b.vertical parts ++ b.vertical

/-- A table on a screen: columns as wide as their widest cell, and borders around them. -/
def lines (b : Border) (g : Grid) : List Bytes :=
  let widths := g.columnWidths
  (rule b b.topLeft b.top b.topRight widths :: rowLines b widths g.columns)
    ++ rule b b.left b.cross b.right widths :: g.rows.flatMap (rowLines b widths)
    ++ [rule b b.bottomLeft b.bottom b.bottomRight widths]

end Grid

end CoffWorks
