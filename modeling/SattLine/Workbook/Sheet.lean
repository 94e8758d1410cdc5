import SattLine.Text.Order

/-!
Sheets of a workbook: cells with texts and numbers, merged ranges, widths of columns, and
tables.
-/

namespace SattLine.Workbook

inductive Content where
  | text (text : String)
  | number (n : Nat)
  deriving DecidableEq, Repr

namespace Content

def isEmpty : Content → Bool
  | .text t => t == ""
  | .number _ => false

def length : Content → Nat
  | .text t => t.length
  | .number n => (toString n).length

end Content

/-- Rows and columns count from one. -/
structure Cell where
  row : Nat
  column : Nat
  content : Content
  deriving DecidableEq, Repr

def columnLetter (column : Nat) : String :=
  String.singleton (Char.ofNat ('A'.toNat + column - 1))

namespace Cell

def place (cell : Cell) : String :=
  columnLetter cell.column ++ toString cell.row

end Cell

structure Table where
  name : String
  range : String
  deriving DecidableEq, Repr

structure Sheet where
  title : String
  cells : List Cell
  merged : List String := []
  widths : List (String × Nat) := []
  hidden : List String := []
  tables : List Table := []

def longestText : Nat := 32767

/-- Control characters other than tabs and line ends cannot stand in a cell. -/
def isIllegal (c : Char) : Bool :=
  c.toNat < 32 && c != '\t' && c != '\n' && c != '\r'

structure IllegalText where
  text : String

/-- What a cell keeps of a content: the start of a text that is too long. -/
def kept : Content → Except IllegalText Content
  | .number n => .ok (.number n)
  | .text text =>
    let text := String.ofList (text.toList.take longestText)
    if text.toList.any isIllegal then .error ⟨text⟩ else .ok (.text text)

def rowFrom (row : Nat) (contents : List Content) : List Cell :=
  contents.mapIdx fun i content => ⟨row, i + 1, content⟩

def rowsFrom (row : Nat) (rows : List (List Content)) : List Cell :=
  (rows.mapIdx fun i contents => rowFrom (row + i) contents).flatten

def texts (values : List String) : List Content :=
  values.map .text

def Cell.before (first second : Cell) : Bool :=
  first.row < second.row || (first.row == second.row && first.column ≤ second.column)

namespace Sheet

/-- The sheet with its cells in order and without empty ones. -/
def finish (sheet : Sheet) : Except IllegalText Sheet := do
  let cells ← sheet.cells.mapM fun cell => do
    return { cell with content := ← kept cell.content }
  let cells := (cells.filter fun cell => !cell.content.isEmpty).mergeSort Cell.before
  return { sheet with cells := cells }

/-- Widths that fit the longest text of every column, up to a limit. -/
def fitted (sheet : Sheet) : Sheet :=
  let columns := ((sheet.cells.map Cell.column).eraseDups)
  { sheet with widths := columns.map fun column =>
      let lengths := (sheet.cells.filter fun cell => cell.column == column).map fun cell =>
        cell.content.length
      (columnLetter column, min (lengths.foldl max 0 + 3) 60) }

end Sheet

/-- A table whose first row holds the headings; without further rows there is none. -/
def tableOf (name : String) (columns headingRow rows : Nat) : List Table :=
  if rows == 0 then []
  else [⟨name, "A" ++ toString headingRow ++ ":" ++ columnLetter columns ++
    toString (headingRow + rows)⟩]

def widthsFrom (widths : List Nat) : List (String × Nat) :=
  widths.mapIdx fun i width => (columnLetter (i + 1), width)

end SattLine.Workbook
