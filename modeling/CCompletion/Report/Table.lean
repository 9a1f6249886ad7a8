import CCompletion.Text.Width
import CCompletion.Theme

/-!
Tables in boxes: a head and rows, each set apart from the next by a rule. A column is as wide as its
widest cell with a space on each side.
-/

namespace CCompletion

/-- The number that sets a colour on a terminal. -/
def Color.code : Color → Nat
  | .black => 30
  | .red => 31
  | .green => 32
  | .yellow => 33
  | .blue => 34
  | .magenta => 35
  | .cyan => 36
  | .white => 37
  | .gray => 90

def Color.sequence (code : Nat) : Text :=
  0x1B :: unit '[' :: (Number.ofNat code).toText ++ [unit 'm']

/-- The text in a colour; nothing is written around an empty one. -/
def Color.paint (c : Color) (t : Text) : Text :=
  if t = [] then [] else Color.sequence c.code ++ t ++ Color.sequence 39

structure Table where
  head : List Text
  rows : List (List Text)

/-- The colours of a table, or none at all. -/
structure TableStyle where
  head : List Color := []
  border : List Color := []

def paintAll (colors : List Color) (t : Text) : Text := colors.foldr Color.paint t

namespace Table

/-- The head and the rows. -/
def lines (table : Table) : List (List Text) := table.head :: table.rows

/-- The width of each column, the spaces included. -/
def widths (table : Table) : List Nat :=
  (List.range table.head.length).map fun i =>
    2 + ((table.lines.map fun row => (row.getD i []).columns).foldl max 0)

/-- The pieces of one border. -/
structure Corners where
  left : Char
  middle : Char
  right : Char

def topCorners : Corners := ⟨'┌', '┬', '┐'⟩

def ruleCorners : Corners := ⟨'├', '┼', '┤'⟩

def bottomCorners : Corners := ⟨'└', '┴', '┘'⟩

/-- One column's part of a border; the last one has the right corner too. -/
def borderPart (corners : Corners) (isFirst isLast : Bool) (width : Nat) : Text :=
  unit (if isFirst then corners.left else corners.middle) ::
    List.replicate width (unit '─') ++ (if isLast then [unit corners.right] else [])

def border (style : TableStyle) (corners : Corners) (widths : List Nat) : Text :=
  (List.range widths.length).flatMap fun i =>
    paintAll style.border (borderPart corners (i == 0) (i + 1 == widths.length) (widths.getD i 0))

def bar (style : TableStyle) : Text := paintAll style.border "│"

/-- One line of a cell, filled up to the width of its column. -/
def cellLine (colors : List Color) (width : Nat) (line : Text) : Text :=
  paintAll colors (unit ' ' :: line ++ List.replicate (width - 1 - line.columns) (unit ' '))

/-- The lines of a row: as many as its highest cell has. -/
def rowLines (style : TableStyle) (colors : List Color) (widths : List Nat) (row : List Text) : List Text :=
  let cells := row.map Text.lines
  let height := (cells.map List.length).foldl max 1
  (List.range height).map fun k =>
    ((List.range widths.length).flatMap fun i =>
      bar style ++ cellLine colors (widths.getD i 0) ((cells.getD i []).getD k [])) ++ bar style

def print (style : TableStyle) (table : Table) : Text :=
  let widths := table.widths
  let rule := border style ruleCorners widths
  let body := table.rows.flatMap fun row => rule :: rowLines style [] widths row
  Text.joinWith [newline]
    (border style topCorners widths :: rowLines style style.head widths table.head ++ body ++
      [border style bottomCorners widths])

end Table
end CCompletion
