import SattLine.Text.Line
import SattLine.Value.Key
import SattLine.Value.Literal

/-!
Values laid out over several lines. A value whose literal form fits into the line stays on it;
otherwise each part of a container starts a line of its own, and a long text is cut into
adjacent literals at its line ends and blanks. Dictionaries are written in the order of their
keys.
-/

namespace SattLine.Value

/-- The number of columns that a line may use. -/
def lineWidth : Int := 80

mutual

/-- The literal form with the dictionaries sorted. Trees and elements keep their own form. -/
def sortedLiteral : Value → String
  | .list items => listOf (sortedLiterals items)
  | .tuple items => tupleOf (sortedLiterals items)
  | .dict keys values =>
    let entries := sortedByKey (keys.zip ((sortedLiterals keys).zip (sortedLiterals values)))
    dictOf (entries.map fun (_, key, _) => key) (entries.map fun (_, _, part) => part)
  | v => v.literal

def sortedLiterals : List Value → List String
  | [] => []
  | v :: rest => sortedLiteral v :: sortedLiterals rest

end

/-- Cuts a line after each run of blanks. -/
def blankEnded : List Char → List Char → List (List Char)
  | [], [] => []
  | current, [] => [current.reverse]
  | current, c :: rest =>
    match rest with
    | d :: _ =>
      if Text.isSpace c && !Text.isSpace d then (c :: current).reverse :: blankEnded [] rest
      else blankEnded (c :: current) rest
    | [] => [(c :: current).reverse]

/-- Fills literals with parts as long as the width allows it; the last part has `narrow`. -/
def fillLiterals (wide narrow : Int) : List Char → List (List Char) → List String
  | current, [] => if current.isEmpty then [] else [Text.quoted (String.ofList current)]
  | current, part :: rest =>
    let candidate := current ++ part
    let width := if rest.isEmpty then narrow else wide
    if width < (Text.quoted (String.ofList candidate)).length then
      (if current.isEmpty then [] else [Text.quoted (String.ofList current)]) ++
        fillLiterals wide narrow part rest
    else fillLiterals wide narrow candidate rest

/-- The adjacent literals of a text. The last of them leaves room for `allowance` columns. -/
def textLiterals (indent allowance : Int) : List (List Char) → List String
  | [] => []
  | line :: rest =>
    let width := lineWidth - indent
    let last := if rest.isEmpty then width - allowance else width
    let whole := Text.quoted (String.ofList line)
    (if (whole.length : Int) ≤ last then [whole]
      else fillLiterals width last [] (blankEnded [] line)) ++ textLiterals indent allowance rest

def lineBreak (indent : Int) : String :=
  "\n" ++ Text.spaces indent.toNat

def layoutText (s : String) (indent allowance : Int) : String :=
  (lineBreak indent).intercalate (textLiterals indent allowance (Text.linesFrom true [] s.toList))

/-- Parts one below the other; all but the last are followed by a comma. -/
def stack (indent allowance : Int) : List (Int → Int → String) → String
  | [] => ""
  | [part] => part indent allowance
  | part :: rest => part indent 1 ++ "," ++ lineBreak indent ++ stack indent allowance rest

def behind (label : String) (part : Int → Int → String) (indent allowance : Int) : String :=
  label ++ part (indent + label.length) allowance

mutual

/-- The text of a value that starts in column `indent` and is followed by `allowance` columns
on its last line. -/
def layout : Value → Int → Int → String
  | v, indent, allowance =>
    let whole := v.sortedLiteral
    if (whole.length : Int) ≤ lineWidth - indent - allowance then whole
    else
      match v with
      | .list items => "[" ++ stack (indent + 1) (allowance + 1) (layouts items) ++ "]"
      | .tuple items =>
        let close := if items.length = 1 then ",)" else ")"
        "(" ++ stack (indent + 1) (allowance + close.length) (layouts items) ++ close
      | .dict keys values =>
        let parts := (sortedByKey (keys.zip (layouts values))).map fun (key, part) =>
          behind (key.sortedLiteral ++ ": ") part
        "\x7b" ++ stack (indent + 1) (allowance + 1) parts ++ "\x7d"
      | .text s => if s.isEmpty then whole else layoutText s indent allowance
      | .element kind fields =>
        let parts := ((kind.fields.map Prod.fst).zip (layouts fields)).map fun (name, part) =>
          behind (name ++ "=") part
        kind.name ++ "(" ++ stack (indent + kind.name.length + 1) allowance parts ++ ")"
      | _ => whole

def layouts : List Value → List (Int → Int → String)
  | [] => []
  | v :: rest => layout v :: layouts rest

end

def laidOut (v : Value) : String :=
  v.layout 0 0

end SattLine.Value
