import SattLine.Source.Comment
import SattLine.Syntax.Lexer

/-!
The parser: a stack machine driven by the parsing table. It builds the derivation tree of the
text; the syntax tree is the shape that the productions leave of it.
-/

namespace SattLine.Syntax

open Grammar (Action Table table Shape Symbol)

/-- The derivation tree of a text: its tokens, and the productions that join them. -/
inductive Derivation where
  | leaf (token : Token)
  | node (production : Nat) (children : List Derivation)
  deriving Inhabited

/-- A state of the machine on the stack, with the derivation that led to it. -/
structure Frame where
  state : Nat
  derivation : Derivation
  deriving Inhabited

abbrev Stack := List Frame

def Stack.state (stack : Stack) : Nat :=
  match stack with
  | [] => 0
  | frame :: _ => frame.state

/-- The end of the text stands where the last token started. -/
def endLexeme (last : Option Token) : Lexeme :=
  match last with
  | none => ⟨Grammar.endSymbol, ⟨Grammar.endTerminal, "", 1, 1⟩⟩
  | some token => ⟨Grammar.endSymbol, ⟨Grammar.endTerminal, "", token.line, token.column⟩⟩

/-- A parsing table with the lexicon of each state. -/
structure Language where
  table : Table
  lexicons : Array Lexicon

def lexicons (table : Table) : Array Lexicon :=
  table.states.mapIdx fun state _ =>
    let accepted := table.accepted state
    Lexicon.ofTerminals (numberedTerminals.filter fun entry => accepted.contains entry.1)

/-- Whether a derivation is one of a symbol; the start production is never part of one. -/
def Derivation.isOf (table : Table) : Derivation → Symbol → Bool
  | .leaf token, .terminal name _ => token.kind == name
  | .node (number + 1) _, symbol =>
    table.productions[number + 1]?.any fun production => production.left == symbol
  | _, _ => false

/-- Whether derivations are those of the symbols of a production. -/
def areOf (table : Table) : List Derivation → List Symbol → Bool
  | [], [] => true
  | derivation :: rest, symbol :: symbols => derivation.isOf table symbol && areOf table rest symbols
  | _, _ => false

namespace Language

variable (language : Language)

/-- Reduces by a production: its symbols, which have to stand on the stack, leave it, and its left
side comes on it. -/
def reduce? (stack : Stack) (production : Nat) : Option Stack := do
  let symbols ← language.table.productions[production]?
  let left ← language.table.lefts[production]?
  let count := symbols.right.length
  let handle := (stack.take count).reverse.map Frame.derivation
  let below := stack.drop count
  let state ← language.table.goto? (Stack.state below) left
  if areOf language.table handle symbols.right then
    some (⟨state, .node production handle⟩ :: below)
  else none

/-- Feeds one token: productions are reduced until the token can be read. -/
def feed : Nat → Lexeme → Stack → Except SyntaxError Stack
  | 0, lexeme, _ => .error (.unexpectedToken lexeme.token)
  | fuel + 1, lexeme, stack =>
    match language.table.action? stack.state lexeme.terminal with
    | none => .error (.unexpectedToken lexeme.token)
    | some (.shift state) => .ok (⟨state, .leaf lexeme.token⟩ :: stack)
    | some (.reduce production) =>
      match language.reduce? stack production with
      | none => .error (.unexpectedToken lexeme.token)
      | some stack => feed fuel lexeme stack

/-- Feeds the end of the text: productions are reduced until a whole program stands alone. -/
def finish : Nat → Lexeme → Stack → Except SyntaxError Derivation
  | 0, lexeme, _ => .error (.unexpectedToken lexeme.token)
  | fuel + 1, lexeme, stack =>
    match language.table.action? stack.state lexeme.terminal with
    | some (.reduce production) =>
      match language.reduce? stack production with
      | none => .error (.unexpectedToken lexeme.token)
      | some stack =>
        match stack with
        | [⟨_, derivation⟩] =>
          if derivation.isOf language.table (.rule "start") then .ok derivation
          else finish fuel lexeme stack
        | _ => finish fuel lexeme stack
    | _ => .error (.unexpectedToken lexeme.token)

/-- Enough steps for all reductions that one token can cause. -/
def stepLimit (stack : Stack) : Nat :=
  (stack.length + 1) * (language.table.productions.size + 1)

/-- Reads the text token by token. Every token takes at least one character, so the length of
the text bounds the number of rounds. -/
def run : Nat → Cursor → Option Token → Stack → Except SyntaxError Derivation
  | 0, _, last, _ => .error (.unexpectedToken (endLexeme last).token)
  | fuel + 1, cursor, last, stack =>
    let cursor := cursor.skipBlanks
    if cursor.rest.isEmpty then
      language.finish (language.stepLimit stack) (endLexeme last) stack
    else do
      let lexicon := language.lexicons.getD stack.state fullLexicon
      let (lexeme, cursor) ← lexicon.read cursor
      let stack ← language.feed (language.stepLimit stack) lexeme stack
      run fuel cursor (some lexeme.token) stack

def derive (text : String) : Except SyntaxError Derivation :=
  let chars := text.toList
  language.run (chars.length + 1) (Cursor.start chars) none []

end Language

mutual
/-- What a derivation leaves in the syntax tree. -/
def Derivation.trees (table : Table) : Derivation → List Tree
  | .leaf token => [.leaf token]
  | .node number children =>
    match table.productions[number]? with
    | none => []
    | some production =>
      let kept := keptTrees table production.right children
      match production.shape with
      | .children => kept
      | .node label => [.node label kept]
      | .collapsing label =>
        match kept with
        | [only] => [only]
        | _ => [.node label kept]

/-- What the children of a production leave; marks leave nothing. -/
def keptTrees (table : Table) : List Symbol → List Derivation → List Tree
  | symbol :: symbols, child :: children =>
    let here := match symbol with
      | .terminal _ false => []
      | _ => child.trees table
    here ++ keptTrees table symbols children
  | _, _ => []
end

def language : Language :=
  ⟨table, lexicons table⟩

/-- The syntax tree of a program without comments. -/
def parse (text : String) : Except SyntaxError Tree := do
  let derivation ← language.derive text
  match derivation.trees language.table with
  | [tree] => .ok tree
  | trees => .ok (.node "start" trees)

def parseSource (text : String) : Except SyntaxError Tree :=
  parse (Source.stripComments text)

end SattLine.Syntax
