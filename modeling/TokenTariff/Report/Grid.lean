/-!
# Grids

Rows of cells in a frame of box-drawing characters. Every column is as wide as its widest cell,
with a blank on each side; a double line stands under the header and a single one between rows.
The cells hold characters that are one column wide.
-/

namespace TokenTariff.Report
set_option autoImplicit false

structure Cell where
  text : String
  alignRight : Bool := false

abbrev Row : Type := List Cell

structure Grid where
  header : Row
  rows : List Row

/-- The characters of a line of the frame: its ends, its stroke, and where it meets a column line. -/
structure Rule where
  left : Char
  stroke : Char
  crossing : Char
  right : Char

namespace Grid

def topRule : Rule := ⟨'┌', '─', '┬', '┐'⟩
def headerRule : Rule := ⟨'╞', '═', '╪', '╡'⟩
def rowRule : Rule := ⟨'├', '─', '┼', '┤'⟩
def bottomRule : Rule := ⟨'└', '─', '┴', '┘'⟩

/-- The widths of the columns that make room for one more row. -/
def widen (widths : List Nat) (row : Row) : List Nat :=
  List.zipWith max widths (row.map (·.text.length))

def widths (grid : Grid) : List Nat :=
  grid.rows.foldl widen (grid.header.map (·.text.length))

/-- A line of the frame. -/
def ruleText (rule : Rule) (widths : List Nat) : String :=
  let strokes (width : Nat) := List.replicate (width + 2) rule.stroke
  String.ofList
    (rule.left :: [rule.crossing].intercalate (widths.map strokes) ++ [rule.right])

/-- A cell filled up to the width of its column. -/
def cellText (width : Nat) (cell : Cell) : String :=
  let blanks := String.ofList (List.replicate (width - cell.text.length) ' ')
  if cell.alignRight then " " ++ blanks ++ cell.text ++ " " else " " ++ cell.text ++ blanks ++ " "

def rowText (widths : List Nat) (row : Row) : String :=
  "│" ++ "│".intercalate (List.zipWith cellText widths row) ++ "│"

def lines (grid : Grid) : List String :=
  let widths := grid.widths
  [ruleText topRule widths, rowText widths grid.header, ruleText headerRule widths] ++
    [ruleText rowRule widths].intercalate (grid.rows.map fun row => [rowText widths row]) ++
    [ruleText bottomRule widths]

/-- The text of a grid, without a line end after its last line. -/
def text (grid : Grid) : String :=
  "\n".intercalate grid.lines

end Grid

end TokenTariff.Report
