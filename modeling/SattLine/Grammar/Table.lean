import SattLine.Grammar.Lookahead
import SattLine.Grammar.Rules
import SattLine.Grammar.Terminals

/-!
The parsing table of the language: for each state the action at each terminal and the state
behind each nonterminal. Where a terminal can be read and a production could also be reduced,
the terminal is read.
-/

namespace SattLine.Grammar

inductive Action where
  | shift (state : Nat)
  | reduce (production : Nat)
  deriving DecidableEq, Repr

structure State where
  items : List Item
  actions : List (Nat × Action)
  gotos : List (Nat × Nat)
  deriving Inhabited

/-- Actions at a state: reading a terminal goes before reducing. -/
def Cfg.state (g : Cfg) (node : Node) (complete : List (Nat × Nat)) : State :=
  let shifts := node.edges.filterMap fun (symbol, target) =>
    if g.isTerminal symbol then some (symbol, Action.shift target) else none
  let gotos := node.edges.filter fun (symbol, _) => !g.isTerminal symbol
  let reduces := (List.range g.terminals).filterMap fun terminal =>
    if (shifts.lookup terminal).isSome then none
    else
      (complete.find? fun (_, terminals) => terminals.testBit terminal).map
        fun (production, _) => (terminal, Action.reduce production)
  ⟨node.items, shifts ++ reduces, gotos⟩

def Cfg.states (g : Cfg) : Array State :=
  let nodes := g.automaton
  let lookaheads := g.lookaheads nodes
  nodes.mapIdx fun number node => g.state node (lookaheads.getD number [])

/-- The language's productions; the first rule is the rule of a program. -/
def allProductions : List Production :=
  productions rules

/-- The terminals' names, with the end of the text as the last one. -/
def terminalNames : Array String :=
  (terminals.map Terminal.name).toArray.push endTerminal

def endSymbol : Nat :=
  terminalNames.size - 1

/-- The left sides of all productions, each once. -/
def nonterminals : Array Symbol :=
  (allProductions.map Production.left).eraseDups.toArray

def Symbol.number (symbol : Symbol) : Nat :=
  match symbol with
  | .terminal name _ => (terminalNames.findIdx? (· == name)).getD 0
  | other => terminalNames.size + (nonterminals.findIdx? (· == other)).getD 0

/-- The symbol of the start production, which no rule mentions. -/
def rootSymbol : Nat :=
  terminalNames.size + nonterminals.size

def programSymbol : Nat :=
  terminalNames.size

/-- The language's grammar over numbered symbols. Production `n + 1` is production `n` of
`allProductions`. -/
def cfg : Cfg where
  terminals := terminalNames.size
  symbols := rootSymbol + 1
  productions := #[⟨rootSymbol, [programSymbol, endSymbol]⟩] ++
    (allProductions.map fun production =>
      (⟨production.left.number, production.right.map Symbol.number⟩ : Numbered)).toArray

/-- A parsing table with everything the parser asks of it. -/
structure Table where
  states : Array State
  /-- For each production its left side, the number of its symbols, and what it leaves. -/
  productions : Array Production
  lefts : Array Nat

def Table.action? (table : Table) (state terminal : Nat) : Option Action := do
  let found ← table.states[state]?
  found.actions.lookup terminal

def Table.goto? (table : Table) (state symbol : Nat) : Option Nat := do
  let found ← table.states[state]?
  found.gotos.lookup symbol

/-- The terminals at which a state has an action. -/
def Table.accepted (table : Table) (state : Nat) : List Nat :=
  (table.states[state]?.map fun found => found.actions.map Prod.fst).getD []

def table : Table where
  states := cfg.states
  productions := #[⟨.rule "", [], .children⟩] ++ allProductions.toArray
  lefts := cfg.productions.map Numbered.left

end SattLine.Grammar
