import SattLine.Grammar.Table
import SattLine.Syntax.Token

/-!
The lexer. Which terminals are tried at a place depends on the parser's state: the first one
that matches, in the order of the table of terminals, gives the token. A keyword that a name
could also spell is not tried where names are possible; there, a name that spells a keyword of
the state is that keyword.
-/

namespace SattLine.Syntax

open Grammar (Terminal terminals terminalNames)

/-- A place in the text: the character before it, the text behind it, and its position. -/
structure Cursor where
  previous : Option Char
  rest : List Char
  line : Nat
  column : Nat
  deriving Repr

def Cursor.start (text : List Char) : Cursor :=
  ⟨none, text, 1, 1⟩

def Cursor.step (cursor : Cursor) : Cursor :=
  match cursor.rest with
  | [] => cursor
  | c :: rest =>
    if c == '\n' then ⟨some c, rest, cursor.line + 1, 1⟩
    else ⟨some c, rest, cursor.line, cursor.column + 1⟩

def Cursor.advance : Nat → Cursor → Cursor
  | 0, cursor => cursor
  | count + 1, cursor => advance count cursor.step

def isSeparator (c : Char) : Bool :=
  c == ' ' || c == '\t' || c == '\x0c' || c == '\r' || c == '\n'

def Cursor.skipBlanks (cursor : Cursor) : Cursor :=
  cursor.advance (cursor.rest.takeWhile isSeparator).length

/-- The terminals of a state in the order in which they are tried, and the keywords that a name
becomes there. -/
structure Lexicon where
  tried : List (Nat × Grammar.Terminal)
  keywords : List (String × Nat)

/-- Words that a name could also spell. -/
def isNameLike (pattern : Pattern) : Bool :=
  match pattern with
  | .word text => Pattern.name.matchesAll text
  | _ => false

def keyword? : Nat × Terminal → Option (String × Nat)
  | (number, terminal) =>
    match terminal.pattern with
    | .word text => some (text, number)
    | _ => none

def Lexicon.ofTerminals (accepted : List (Nat × Terminal)) : Lexicon :=
  if accepted.any (·.2.pattern == .name) then
    { tried := accepted.filter fun entry => !isNameLike entry.2.pattern
      keywords := (accepted.filter fun entry => isNameLike entry.2.pattern).filterMap keyword? }
  else { tried := accepted, keywords := [] }

def numberedTerminals : List (Nat × Terminal) :=
  terminals.zipIdx.map fun (terminal, number) => (number, terminal)

def fullLexicon : Lexicon :=
  Lexicon.ofTerminals numberedTerminals

structure Lexeme where
  terminal : Nat
  token : Token
  deriving Repr

/-- The first terminal of the list that matches, and the number of characters it takes. -/
def firstMatch (cursor : Cursor) : List (Nat × Terminal) → Option (Nat × Terminal × Nat)
  | [] => none
  | (number, terminal) :: others =>
    match terminal.pattern.length? cursor.previous cursor.rest with
    | some length => some (number, terminal, length)
    | none => firstMatch cursor others

/-- The token at a place that is no blank, and the place behind it. -/
def Lexicon.lexeme? (lexicon : Lexicon) (cursor : Cursor) : Option (Lexeme × Cursor) := do
  let (number, terminal, length) ← firstMatch cursor lexicon.tried
  let text := String.ofList (cursor.rest.take length)
  let number :=
    if terminal.pattern == .name then (lexicon.keywords.lookup text).getD number else number
  let kind := terminalNames.getD number ""
  some (⟨number, ⟨kind, text, cursor.line, cursor.column⟩⟩, cursor.advance length)

/-- Reads one token at a place that is no blank. A token that exists in the language, but not in
this lexicon, is an unexpected token. -/
def Lexicon.read (lexicon : Lexicon) (cursor : Cursor) : Except SyntaxError (Lexeme × Cursor) :=
  match lexicon.lexeme? cursor with
  | some found => .ok found
  | none =>
    match fullLexicon.lexeme? cursor with
    | some (lexeme, _) => .error (.unexpectedToken lexeme.token)
    | none =>
      .error (.unexpectedChar (cursor.rest.headD ' ') cursor.line cursor.column)

end SattLine.Syntax
