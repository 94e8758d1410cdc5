/-!
The text of a TOML document: blanks, comments, strings and keys. Every reader takes the
characters that are left and gives back those behind what it read.
-/

namespace SattLine.Toml

def isBlank (c : Char) : Bool :=
  c == ' ' || c == '\t'

def isBlankOrNewline (c : Char) : Bool :=
  isBlank c || c == '\n'

def skipBlanks (chars : List Char) : List Char :=
  chars.dropWhile isBlank

/-- Control characters have to be written as escapes; a tab may stand everywhere. -/
def isControl (c : Char) : Bool :=
  (c.toNat < 32 && c != '\t') || c.toNat == 127

/-- Inside strings of several lines, line ends may stand as well. -/
def isControlInLines (c : Char) : Bool :=
  isControl c && c != '\n'

def skipComment? : List Char → Option (List Char)
  | '#' :: rest =>
    if (rest.takeWhile (· != '\n')).any isControl then none
    else some (rest.dropWhile (· != '\n'))
  | chars => some chars

/-- Skips blanks, line ends and comments; the flag says that the text starts in a comment. -/
def skipFiller? : Bool → List Char → Option (List Char)
  | _, [] => some []
  | true, c :: rest =>
    if c == '\n' then skipFiller? false rest
    else if isControl c then none
    else skipFiller? true rest
  | false, c :: rest =>
    if isBlankOrNewline c then skipFiller? false rest
    else if c == '#' then skipFiller? true rest
    else some (c :: rest)

def hexDigit? (c : Char) : Option Nat :=
  if c.isDigit then some (c.toNat - '0'.toNat)
  else if 'a' ≤ c ∧ c ≤ 'f' then some (c.toNat - 'a'.toNat + 10)
  else if 'A' ≤ c ∧ c ≤ 'F' then some (c.toNat - 'A'.toNat + 10)
  else none

def hexChar? (digits : List Char) : Option Char := do
  let code := (← digits.mapM hexDigit?).foldl (fun n d => 16 * n + d) 0
  if code.isValidChar then some (Char.ofNat code) else none

def escaped? : Char → Option Char
  | 'b' => some '\x08'
  | 't' => some '\t'
  | 'n' => some '\n'
  | 'f' => some '\x0c'
  | 'r' => some '\r'
  | '"' => some '"'
  | '\\' => some '\\'
  | _ => none

def push (c : Option Char) (rest : Option (List Char × List Char)) :
    Option (List Char × List Char) := do
  let c ← c
  let (text, left) ← rest
  return (c :: text, left)

/-- A string in quote marks, behind its opening mark. -/
def quoted? : List Char → Option (List Char × List Char)
  | [] => none
  | '"' :: rest => some ([], rest)
  | '\\' :: 'u' :: a :: b :: c :: d :: rest => push (hexChar? [a, b, c, d]) (quoted? rest)
  | '\\' :: 'U' :: a :: b :: c :: d :: e :: f :: g :: h :: rest =>
    push (hexChar? [a, b, c, d, e, f, g, h]) (quoted? rest)
  | '\\' :: c :: rest => push (escaped? c) (quoted? rest)
  | c :: rest => if isControl c || c == '\\' then none else push (some c) (quoted? rest)

/-- A string in apostrophes, behind its opening mark. -/
def literal? (chars : List Char) : Option (List Char × List Char) :=
  let text := chars.takeWhile (· != '\'')
  match chars.dropWhile (· != '\'') with
  | _ :: rest => if text.any isControl then none else some (text, rest)
  | [] => none

/-- Up to two marks directly behind a string of several lines belong to it. -/
def closing (mark : Char) : List Char → List Char × List Char
  | c :: d :: rest =>
    if c == mark && d == mark then ([mark, mark], rest)
    else if c == mark then ([mark], d :: rest)
    else ([], c :: d :: rest)
  | [c] => if c == mark then ([mark], []) else ([], [c])
  | [] => ([], [])

/-- Where the reading of a string of several lines stands: in its text, on a line that a
backslash ends, or on the blank lines that follow it. -/
inductive Fold where
  | none
  | onLine
  | below
  deriving DecidableEq, Repr

/-- A string of several lines in quote marks, behind its opening marks. -/
def quotedLines? : Fold → List Char → Option (List Char × List Char)
  | _, [] => Option.none
  | .onLine, c :: rest =>
    if c == '\n' then quotedLines? .below rest
    else if isBlank c then quotedLines? .onLine rest
    else Option.none
  | fold, c :: rest =>
    if fold == .below && isBlankOrNewline c then quotedLines? .below rest
    else
      match c, rest with
      | '"', '"' :: '"' :: rest => some (closing '"' rest)
      | '\\', '\n' :: rest => quotedLines? .below rest
      | '\\', ' ' :: rest | '\\', '\t' :: rest => quotedLines? .onLine rest
      | '\\', 'u' :: a :: b :: c :: d :: rest =>
        push (hexChar? [a, b, c, d]) (quotedLines? .none rest)
      | '\\', 'U' :: a :: b :: c :: d :: e :: f :: g :: h :: rest =>
        push (hexChar? [a, b, c, d, e, f, g, h]) (quotedLines? .none rest)
      | '\\', c :: rest => push (escaped? c) (quotedLines? .none rest)
      | c, rest =>
        if isControlInLines c || c == '\\' then Option.none
        else push (some c) (quotedLines? .none rest)

/-- A string of several lines in apostrophes, behind its opening marks. -/
def literalLines? : List Char → Option (List Char × List Char)
  | [] => none
  | '\'' :: '\'' :: '\'' :: rest => some (closing '\'' rest)
  | c :: rest => if isControlInLines c then none else push (some c) (literalLines? rest)

/-- A line end directly behind the opening marks does not count. -/
def skipFirstNewline : List Char → List Char
  | '\n' :: rest => rest
  | chars => chars

def asText (result : Option (List Char × List Char)) : Option (String × List Char) :=
  result.map fun (text, rest) => (String.ofList text, rest)

def string? : List Char → Option (String × List Char)
  | '"' :: '"' :: '"' :: rest => asText (quotedLines? .none (skipFirstNewline rest))
  | '\'' :: '\'' :: '\'' :: rest => asText (literalLines? (skipFirstNewline rest))
  | '"' :: rest => asText (quoted? rest)
  | '\'' :: rest => asText (literal? rest)
  | _ => none

def isKeyChar (c : Char) : Bool :=
  c.isAlphanum || c == '_' || c == '-'

/-- One name of a key: plain, or a string on one line. -/
def keyPart? : List Char → Option (String × List Char)
  | '"' :: rest => asText (quoted? rest)
  | '\'' :: rest => asText (literal? rest)
  | chars =>
    match chars.takeWhile isKeyChar with
    | [] => none
    | name => some (String.ofList name, chars.dropWhile isKeyChar)

/-- A key: names with dots between them, and the blanks behind it. The first argument bounds
the number of names. -/
def key? : Nat → List Char → Option (List String × List Char)
  | 0, _ => none
  | limit + 1, chars => do
    let (name, rest) ← keyPart? chars
    match skipBlanks rest with
    | '.' :: rest =>
      let (names, rest) ← key? limit (skipBlanks rest)
      return (name :: names, rest)
    | rest => return ([name], rest)

end SattLine.Toml
