import SattLine.Text.CharClass

/-!
Lines and their margins: trimming blanks, cutting a text into lines, reading files with any
line break as one newline, indenting, and padding to a column width.
-/

namespace SattLine.Text

def trimStart (chars : List Char) : List Char :=
  chars.dropWhile isSpace

/-- The text without the blanks at its two ends. -/
def trim (text : String) : String :=
  String.ofList (trimStart (trimStart text.toList).reverse).reverse

/-- Cuts a text after every line end; a carriage return and a newline are one line end. The
line ends are kept when `keepEnds` holds. A last line without an end counts if it is not
empty. -/
def linesFrom (keepEnds : Bool) : List Char → List Char → List (List Char)
  | [], [] => []
  | current, [] => [current.reverse]
  | current, '\r' :: '\n' :: rest =>
    (if keepEnds then ('\n' :: '\r' :: current).reverse else current.reverse) ::
      linesFrom keepEnds [] rest
  | current, c :: rest =>
    if isLineEnd c then
      (if keepEnds then (c :: current).reverse else current.reverse) :: linesFrom keepEnds [] rest
    else linesFrom keepEnds (c :: current) rest

def lines (text : String) : List String :=
  (linesFrom false [] text.toList).map String.ofList

/-- Puts a margin before every line that has a character other than a blank. -/
def indent (margin : String) (text : String) : String :=
  String.join <| (linesFrom true [] text.toList).map fun line =>
    if line.all isSpace then String.ofList line else margin ++ String.ofList line

/-- Every carriage return, alone or before a newline, becomes one newline. -/
def unifyNewlinesChars : List Char → List Char
  | [] => []
  | '\r' :: '\n' :: rest => '\n' :: unifyNewlinesChars rest
  | c :: rest => (if c == '\r' then '\n' else c) :: unifyNewlinesChars rest

def unifyNewlines (text : String) : String :=
  String.ofList (unifyNewlinesChars text.toList)

def spaces (count : Nat) : String :=
  String.ofList (List.replicate count ' ')

/-- The text followed by blanks up to the given width. -/
def padRight (width : Nat) (text : String) : String :=
  text ++ spaces (width - text.length)

end SattLine.Text
