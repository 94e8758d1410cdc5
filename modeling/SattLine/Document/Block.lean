import SattLine.Value.Basic

/-!
The blocks of a document: headings and paragraphs with their style, and tables.
-/

namespace SattLine.Document

inductive Block where
  | paragraph (style text : String) (bold : Bool)
  /-- The heading row comes first; the widths of the columns are in inches. -/
  | table (rows : List (List String)) (widths : List Nat)
  deriving DecidableEq, Repr

/-- Characters that a document cannot hold: control characters other than tabs and line ends, and
the two code points that are no characters. -/
def isIllegal (c : Char) : Bool :=
  (c.toNat < 32 && c != '\t' && c != '\n' && c != '\r') || c.toNat == 0xFFFE || c.toNat == 0xFFFF

/-- A text as a document holds it: every carriage return ends a line. -/
def documentText (text : String) : Except Fault String :=
  if text.toList.any isIllegal then .error .badValue
  else .ok (String.ofList (text.toList.map fun c => if c == '\r' then '\n' else c))

def styled (style text : String) (bold : Bool) : Except Fault Block := do
  return .paragraph style (← documentText text) bold

/-- A heading; level zero is the title. -/
def heading (level : Nat) (text : String) : Except Fault Block :=
  styled (if level == 0 then "Title" else "Heading " ++ toString level) text false

def plain (text : String) : Except Fault Block :=
  styled "Normal" text false

def bold (text : String) : Except Fault Block :=
  styled "Normal" text true

def pageBreak : Block := .paragraph "Normal" "\n" false

def table (headings : List String) (rows : List (List String)) (widths : List Nat) :
    Except Fault Block := do
  let rows ← (headings :: rows).mapM fun row => row.mapM documentText
  return .table rows widths

end SattLine.Document
