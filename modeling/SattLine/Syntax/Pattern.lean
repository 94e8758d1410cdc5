import SattLine.Text.CharClass

/-!
Patterns of terminals. A pattern is tried at a place in the text and answers with the number
of characters it takes there. Quoted names, reserved words and word boundaries follow the
language's lexical rules; digits of any script count as digits.
-/

namespace SattLine.Syntax

inductive Pattern where
  /-- A fixed word or mark. -/
  | word (text : String)
  | name
  | real
  | integer
  /-- A quoted text on one line. -/
  | quoted
  /-- A quoted text that its line break ends. -/
  | openQuoted
  | dateCode
  | truth
  deriving DecidableEq, Repr

/-- The largest number of characters a pattern can take, if there is one. -/
def Pattern.width? : Pattern → Option Nat
  | .word text => some text.length
  | .dateCode => some 9
  | .truth => some 5
  | _ => none

namespace Pattern

/-- The first letters of names. -/
def isNameLetter (c : Char) : Bool :=
  c.isAlpha || c == 'Æ' || c == 'Ø' || c == 'Å' || c == 'æ' || c == 'ø' || c == 'å'

def isNameChar (c : Char) : Bool :=
  isNameLetter c || c.isDigit || c == '_' || c == '\''

def isWord? (c : Option Char) : Bool :=
  c.any Text.isWordChar

/-- A word boundary lies between a word character and anything else. -/
def boundary (before after : Option Char) : Bool :=
  isWord? before != isWord? after

/-- Words that are never names when they stand alone. -/
def reserved : List String :=
  ["IF", "THEN", "ELSE", "ELSIF", "ENDIF", "AND", "OR", "NOT", "True", "False"]

def startsReserved (chars : List Char) : Bool :=
  reserved.any fun word =>
    word.toList.isPrefixOf chars &&
      boundary word.toList.getLast? (chars.drop word.length).head?

/-- The length of the longest stretch of at most `limit` name characters that ends at a word
boundary, `before` being the character in front of it. -/
def nameTail : Nat → Option Char → List Char → Option Nat
  | 0, before, rest => if boundary before rest.head? then some 0 else none
  | limit + 1, before, rest =>
    let here := if boundary before rest.head? then some 0 else none
    match rest with
    | [] => here
    | c :: more =>
      if isNameChar c then
        match nameTail limit (some c) more with
        | some length => some (length + 1)
        | none => here
      else here

/-- A name is a text in single quotes, or a letter and up to nineteen further characters between
word boundaries that is no reserved word. -/
def nameLength (before : Option Char) (rest : List Char) : Option Nat :=
  match rest with
  | [] => none
  | '\'' :: more =>
    if more.contains '\'' then some ((more.takeWhile (· != '\'')).length + 2) else none
  | c :: more =>
    if isNameLetter c && boundary before (some c) && !startsReserved rest then
      (nameTail 19 (some c) more).map (· + 1)
    else none

def digitCount (chars : List Char) : Nat :=
  (chars.takeWhile Text.isDigit).length

def signLength : List Char → Nat
  | c :: _ => if c == '+' || c == '-' then 1 else 0
  | [] => 0

/-- An optional sign and at least one digit. -/
def integerLength (rest : List Char) : Option Nat :=
  let sign := signLength rest
  let digits := digitCount (rest.drop sign)
  if digits == 0 then none else some (sign + digits)

/-- The length of an exponent, zero when there is none. -/
def exponentLength : List Char → Nat
  | c :: rest =>
    if c == 'e' || c == 'E' then
      match integerLength rest with
      | some length => length + 1
      | none => 0
    else 0
  | [] => 0

/-- Digits on both sides of a point, with an optional sign and an optional exponent. -/
def realLength (rest : List Char) : Option Nat := do
  let whole ← integerLength rest
  match rest.drop whole with
  | '.' :: behind =>
    let digits := digitCount behind
    if digits == 0 then none
    else some (whole + 1 + digits + exponentLength (behind.drop digits))
  | _ => none

/-- The length of the part of a quoted text behind its opening mark, the closing mark included.
Doubled marks belong to the text; when no mark closes it on its line, the last doubled mark is
taken for the closing one. -/
def quotedTail : List Char → Option Nat
  | '"' :: '"' :: rest =>
    match quotedTail rest with
    | some length => some (length + 2)
    | none => some 1
  | '"' :: _ => some 1
  | c :: rest => if c == '\n' then none else (quotedTail rest).map (· + 1)
  | [] => none

/-- The length of the part of an open quoted text behind its mark, the line break included. -/
def openQuotedTail : List Char → Option Nat
  | '"' :: '"' :: rest => (openQuotedTail rest).map (· + 2)
  | '"' :: _ => none
  | c :: rest => if c == '\n' then some 1 else (openQuotedTail rest).map (· + 1)
  | [] => none

def behindQuote (tail : List Char → Option Nat) : List Char → Option Nat
  | '"' :: rest => (tail rest).map (· + 1)
  | _ => none

def wordLength (word : String) (rest : List Char) : Option Nat :=
  if word.toList.isPrefixOf rest then some word.length else none

/-- The number of characters the pattern takes from `rest`, when `before` is the character in
front of it. -/
def length? (pattern : Pattern) (before : Option Char) (rest : List Char) : Option Nat :=
  match pattern with
  | .word text => wordLength text rest
  | .name => nameLength before rest
  | .real => realLength rest
  | .integer => integerLength rest
  | .quoted => behindQuote quotedTail rest
  | .openQuoted => behindQuote openQuotedTail rest
  | .dateCode =>
    let digits := digitCount rest
    if digits < 7 then none else some (min digits 9)
  | .truth => wordLength "True" rest <|> wordLength "False" rest

/-- Whether the pattern takes the whole of a text that stands alone. -/
def matchesAll (pattern : Pattern) (text : String) : Bool :=
  pattern.length? none text.toList == some text.length

end Pattern

end SattLine.Syntax
