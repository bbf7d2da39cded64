import TimePhrase.Console
import TimePhrase.Console.Screen
import TimePhrase.Display.Rounding

/-!
# Tables on a plain screen

A table has a title in its middle, a heavy frame around the names of its columns and a light
one around its rows. Columns are as wide as what they hold. In a table too wide for the
screen the widest columns are made narrower, and what they hold is broken into lines.
-/

namespace TimePhrase.Console

open Text (cells)

/-- Takes columns off the marked widths, as evenly as possible and at most `limit` off each.
`share` counts the marked widths that are left. -/
def takeOff (limit : Nat) : Nat → Nat → List (Nat × Bool) → List Nat
  | _, _, [] => []
  | total, share, (width, marked) :: rest =>
    if marked then
      let off := min limit (roundedQuotient total share)
      (width - off) :: takeOff limit (total - off) (share - 1) rest
    else width :: takeOff limit total share rest

/-- Makes the widest columns narrower until all of them together fit into the given width. -/
def narrow (available : Nat) : Nat → List Nat → List Nat
  | 0, widths => widths
  | fuel + 1, widths =>
    let excess := widths.foldl (· + ·) 0 - available
    if excess = 0 then widths
    else
      let widest := widths.foldl max 0
      let second := (widths.filter (· ≠ widest)).foldl max 0
      let marked := widths.map fun w => (w, w == widest)
      let share := (marked.filter (·.2)).length
      narrow available fuel (takeOff (min excess (widest - second)) excess share marked)

/-- The columns that a text takes when it is not broken. -/
def naturalWidth (text : String) : Nat :=
  ((text.splitOn "\n").map fun line => cells line.toList).foldl max 0

namespace Table

/-- The texts of a column, its name first. -/
def column (t : Table) (i : Nat) (c : Column) : List String :=
  c.name :: t.rows.map fun row => row.getD i ""

/-- The widths of the columns with a blank on either side, on a screen of the given width. -/
def widths (t : Table) (screenWidth : Nat) : List Nat :=
  let natural := t.columns.zipIdx.map fun (c, i) =>
    ((t.column i c).map naturalWidth).foldl max 0 + 2
  let available := screenWidth - (t.columns.length + 1)
  narrow available (natural.foldl (· + ·) 0) natural

/-- A line of a cell, filled up with blanks to the given width. -/
def fill (alignRight : Bool) (width : Nat) (line : List Char) : String :=
  let blanks := List.replicate (width - cells line) ' '
  String.ofList (if alignRight then blanks ++ line else line ++ blanks)

/-- The lines of a row of cells between the given bars. -/
def rowLines (bar : String) (columns : List (Column × Nat)) (row : List String) : List String :=
  let cells := columns.zipIdx.map fun ((c, width), i) =>
    (c, width, linesOf (width - 2) (row.getD i ""))
  let height := (cells.map fun (_, _, lines) => lines.length).foldl max 0
  (List.range height).map fun i =>
    bar ++ bar.intercalate (cells.map fun (c, width, lines) =>
      " " ++ fill c.alignRight (width - 2) (lines.getD i []) ++ " ") ++ bar

/-- A line of the frame. -/
def frameLine (left line between right : String) (widths : List Nat) : String :=
  left ++ between.intercalate (widths.map fun w => String.join (List.replicate w line)) ++ right

/-- The title in the middle of the given width. -/
def titleLines (width : Nat) (title : String) : List String :=
  (linesOf width title).map fun line =>
    let line := Text.stripEnd line
    String.ofList (List.replicate ((width - cells line) / 2) ' ' ++ line)

/-- The table without markup in its cells. -/
def freed (t : Table) : Table where
  title := t.title
  columns := t.columns
  rows := t.rows.map fun row => row.map plain

/-- A table as it stands on a screen of the given width, once it is free of markup. -/
def plainText (t : Table) (screenWidth : Nat) : String :=
  let widths := t.widths screenWidth
  let columns := t.columns.zip widths
  let lines :=
    titleLines (widths.foldl (· + ·) 0 + widths.length + 1) t.title ++
    [frameLine "┏" "━" "┳" "┓" widths] ++
    rowLines "┃" columns (t.columns.map Column.name) ++
    [frameLine "┡" "━" "╇" "┩" widths] ++
    t.rows.flatMap (rowLines "│" columns) ++
    [frameLine "└" "─" "┴" "┘" widths]
  String.join (lines.map (· ++ "\n"))

/-- The table as it stands on a screen of the given width. -/
def text (t : Table) (screenWidth : Nat) : String := t.freed.plainText screenWidth

end Table

/-- A plain screen of the given width, on which everything can be shown. -/
def screen (width : Nat) : Console where
  line text := .ok (shown width text)
  table t := .ok (t.text width)

end TimePhrase.Console
