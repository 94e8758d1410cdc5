import SattLine.Grammar.Automaton

/-!
Lookahead sets. A complete item may be reduced before a terminal when that terminal can follow
the reduced symbol in the state where its production began. These follow sets are the least
solution of two families of inclusions, computed by repeated rounds; sets of terminals are bit
masks.
-/

namespace SattLine.Grammar

structure Edge where
  state : Nat
  symbol : Nat
  target : Nat
  deriving Repr, Inhabited

def follow? (nodes : Array Node) (state symbol : Nat) : Option Nat := do
  let node ← nodes[state]?
  node.edges.lookup symbol

/-- The state reached from a state along a row of symbols, with every state and symbol on the
way. -/
def walk (nodes : Array Node) : Nat → List Nat → List (Nat × Nat) × Option Nat
  | state, [] => ([], some state)
  | state, symbol :: rest =>
    match follow? nodes state symbol with
    | none => ([], none)
    | some next =>
      let (steps, last) := walk nodes next rest
      ((state, symbol) :: steps, last)

namespace Cfg

variable (g : Cfg)

def nullableRound (nullable : Nat) : Nat :=
  g.productions.foldl
    (fun found production =>
      if production.right.all found.testBit then found ||| 1 <<< production.left else found)
    nullable

/-- The symbols that derive the empty text. -/
def nullable : Nat :=
  (List.range (g.symbols + 1)).foldl (fun found _ => g.nullableRound found) 0

def edges (nodes : Array Node) : Array Edge :=
  nodes.zipIdx.foldl
    (fun found (node, state) =>
      node.edges.foldl
        (fun found (symbol, target) =>
          if g.isTerminal symbol then found else found.push ⟨state, symbol, target⟩)
        found)
    #[]

def edgeNumbers (states : Nat) (edges : Array Edge) : Array (List (Nat × Nat)) :=
  edges.zipIdx.foldl
    (fun table (edge, number) => table.modify edge.state ((edge.symbol, number) :: ·))
    (Array.replicate states [])

/-- The terminals that can be read directly behind an edge. -/
def directReads (nodes : Array Node) (edge : Edge) : Nat :=
  ((nodes[edge.target]?.map Node.edges).getD []).foldl
    (fun found (symbol, _) => if g.isTerminal symbol then found ||| 1 <<< symbol else found) 0

end Cfg

/-- `(a, b)` says that the set of `a` includes the set of `b`. -/
abbrev Inclusions := List (Nat × Nat)

def inclusionRound (inclusions : Inclusions) (sets : Array Nat) : Array Nat :=
  inclusions.foldl
    (fun sets (larger, smaller) => sets.modify larger (· ||| sets.getD smaller 0)) sets

/-- Repeats the rounds until nothing changes. Every round but the last makes a set larger. -/
def closeUnder (inclusions : Inclusions) : Nat → Array Nat → Array Nat
  | 0, sets => sets
  | fuel + 1, sets =>
    let larger := inclusionRound inclusions sets
    if larger == sets then sets else closeUnder inclusions fuel larger

namespace Cfg

variable (g : Cfg)

/-- An edge reads what can be read behind an empty text that follows it. -/
def readInclusions (nodes : Array Node) (nullable : Nat) (edges : Array Edge)
    (numbers : Array (List (Nat × Nat))) : Inclusions :=
  edges.zipIdx.toList.flatMap fun (edge, number) =>
    ((nodes[edge.target]?.map Node.edges).getD []).filterMap fun (symbol, _) =>
      if !g.isTerminal symbol && nullable.testBit symbol then
        ((numbers.getD edge.target []).lookup symbol).map fun other => (number, other)
      else none

/-- The edges on the way of a production behind which the rest of it can be empty. -/
def emptyTails (nullable : Nat) : List (Nat × Nat) → List (Nat × Nat)
  | [] => []
  | (state, symbol) :: rest =>
    if rest.all (fun step => nullable.testBit step.2) then
      (state, symbol) :: emptyTails nullable rest
    else emptyTails nullable rest

/-- What each edge begins: for all productions of its symbol, the inclusions of the edges on the
way and the state in which the production is complete. -/
def productionWays (nodes : Array Node) (nullable : Nat) (alternatives : Array (List Nat))
    (edges : Array Edge) (numbers : Array (List (Nat × Nat))) :
    Inclusions × List (Nat × Nat × Nat) :=
  edges.zipIdx.toList.foldl
    (fun found (edge, number) =>
      (alternatives.getD edge.symbol []).foldl
        (fun (inclusions, completions) production =>
          let (steps, last) := walk nodes edge.state (g.right production)
          let included := (emptyTails nullable steps).filterMap fun (state, symbol) =>
            ((numbers.getD state []).lookup symbol).map fun other => (other, number)
          let completions := match last with
            | some state => (state, production, number) :: completions
            | none => completions
          (included ++ inclusions, completions))
        found)
    ([], [])

/-- For each state, its complete productions with the terminals before which they are reduced. -/
def lookaheads (nodes : Array Node) : Array (List (Nat × Nat)) :=
  let nullable := g.nullable
  let edges := g.edges nodes
  let numbers := edgeNumbers nodes.size edges
  let limit := edges.size * Nat.pow 2 g.terminals
  let reads := closeUnder (g.readInclusions nodes nullable edges numbers) limit
    (edges.map (g.directReads nodes))
  let (inclusions, completions) := g.productionWays nodes nullable g.alternatives edges numbers
  let follows := closeUnder inclusions limit reads
  completions.foldl
    (fun table (state, production, number) =>
      table.modify state fun known =>
        let before := (known.lookup production).getD 0
        (production, before ||| follows.getD number 0) ::
          known.filter (·.1 != production))
    (Array.replicate nodes.size [])

end Cfg

end SattLine.Grammar
