/-!
# Tables of text

A table has a heading and rows of cells, and is drawn with box characters. Each column is as wide as its
longest cell, and every cell has a space on either side.

```
┌───┬──────┐
│ # ┆ SIZE │
╞═══╪══════╡
│ 0 ┆ 5    │
├╌╌╌┼╌╌╌╌╌╌┤
│ 1 ┆ 12   │
└───┴──────┘
```
-/

namespace Telegram.CommandLine

/-- A heading and rows of as many cells. -/
structure Table where
  heading : List String
  rows : List (List String)

namespace Table

/-- The width of each column. -/
def widths (table : Table) : List Nat :=
  table.rows.foldl (fun widths row => List.zipWith max widths (row.map String.length))
    (table.heading.map String.length)

/-- A text repeated. -/
def times (text : String) (count : Nat) : String :=
  String.join (List.replicate count text)

/-- A line between rows. -/
def ruleLine (left fill middle right : String) (widths : List Nat) : String :=
  left ++ middle.intercalate (widths.map fun width => times fill (width + 2)) ++ right

/-- A cell with the spaces around it. -/
def cell (width : Nat) (text : String) : String :=
  " " ++ text ++ times " " (width - text.length + 1)

/-- A row of cells. -/
def rowLine (widths : List Nat) (cells : List String) : String :=
  "│" ++ "┆".intercalate (List.zipWith cell widths cells) ++ "│"

/-- The lines of the table, each but the last followed by a line end. -/
def render (table : Table) : String :=
  let widths := table.widths
  let rows := (table.rows.map fun row => [rowLine widths row]).intersperse
    [ruleLine "├" "╌" "┼" "┤" widths]
  "\n".intercalate <|
    [ruleLine "┌" "─" "┬" "┐" widths, rowLine widths table.heading,
      ruleLine "╞" "═" "╪" "╡" widths] ++ rows.flatten ++ [ruleLine "└" "─" "┴" "┘" widths]

end Table

end Telegram.CommandLine
