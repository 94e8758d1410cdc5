import SattLine.Text.Case

/-!
Forms in a text: words, blanks, quoted texts and names in a fixed order. A form is looked for
from left to right, and the forms that are found do not overlap.
-/

namespace SattLine.Text

/-- One piece of a form. Names, numbers and quoted texts are what a form finds. -/
inductive Piece where
  | word (text : String)
  /-- A word in any letter case. -/
  | anyCase (text : String)
  | blanks
  /-- At least one blank. -/
  | gap
  /-- A text between quote marks that is not empty. -/
  | quoted
  /-- A text between quote marks that may be left out and is not kept. -/
  | remark
  /-- Letters, digits and underscores. -/
  | name
  | number
  deriving DecidableEq, Repr

abbrev Form := List Piece

/-- What is found, and the text behind it. -/
abbrev Found := List String × List Char

/-- A letter in any case; the long s is a small letter of S. -/
def sameLetter (small c : Char) : Bool :=
  lowerChar c == small || (small == 's' && c == 'ſ')

/-- The rest of a text that starts with a word in any letter case. -/
def afterAnyCase? : List Char → List Char → Option (List Char)
  | [], rest => some rest
  | small :: word, c :: rest => if sameLetter small c then afterAnyCase? word rest else none
  | _ :: _, [] => none

/-- A stretch of at least one character of a class. -/
def stretch? (inClass : Char → Bool) (chars : List Char) : Option Found :=
  match chars.takeWhile inClass with
  | [] => none
  | taken => some ([String.ofList taken], chars.dropWhile inClass)

/-- The text up to the next quote mark, and the text behind the mark. -/
def closeQuote? (chars : List Char) : Option (List Char × List Char) :=
  match chars.dropWhile (· != '"') with
  | [] => none
  | _ :: rest => some (chars.takeWhile (· != '"'), rest)

namespace Piece

def read (piece : Piece) (chars : List Char) : Option Found :=
  match piece with
  | .word text =>
    if text.toList.isPrefixOf chars then some ([], chars.drop text.length) else none
  | .anyCase text => (afterAnyCase? text.toList chars).map ([], ·)
  | .blanks => some ([], chars.dropWhile isSpace)
  | .gap =>
    match chars with
    | c :: rest => if isSpace c then some ([], rest.dropWhile isSpace) else none
    | [] => none
  | .quoted =>
    match chars with
    | '"' :: rest =>
      match closeQuote? rest with
      | some ([], _) => none
      | some (inside, rest) => some ([String.ofList inside], rest)
      | none => none
    | _ => none
  | .remark =>
    match chars with
    | '"' :: rest =>
      match closeQuote? rest with
      | some (_, rest) => some ([], rest)
      | none => some ([], chars)
    | _ => some ([], chars)
  | .name => stretch? isWordChar chars
  | .number => stretch? isDigit chars

end Piece

namespace Form

/-- Reads a form at the start of a text. -/
def read : Form → List Char → Option Found
  | [], chars => some ([], chars)
  | piece :: rest, chars =>
    match piece.read chars with
    | none => none
    | some (first, chars) =>
      match read rest chars with
      | none => none
      | some (others, chars) => some (first ++ others, chars)

/-- What the forms in a text hold. A number of characters at its start belong to a form that was
found before. With `wordStart`, a form does not stand where a word goes on; the next argument
tells whether the text starts there. -/
def allFrom (form : Form) (wordStart : Bool) : Bool → Nat → List Char → List (List String)
  | _, _, [] => []
  | _, skip + 1, c :: rest => allFrom form wordStart (isWordChar c) skip rest
  | inWord, 0, c :: rest =>
    if wordStart && inWord then allFrom form wordStart (isWordChar c) 0 rest
    else
      match form.read (c :: rest) with
      | some (found, behind) =>
        found :: allFrom form wordStart (isWordChar c) (rest.length - behind.length) rest
      | none => allFrom form wordStart (isWordChar c) 0 rest

def all (form : Form) (text : String) : List (List String) :=
  form.allFrom false false 0 text.toList

/-- The forms that do not start inside a word. -/
def allAtWords (form : Form) (text : String) : List (List String) :=
  form.allFrom true false 0 text.toList

def first? (form : Form) (text : String) : Option (List String) :=
  (form.all text).head?

end Form

def occursIn (part : List Char) : List Char → Bool
  | [] => part.isEmpty
  | c :: rest => part.isPrefixOf (c :: rest) || occursIn part rest

def holds (text part : String) : Bool :=
  occursIn part.toList text.toList

end SattLine.Text
