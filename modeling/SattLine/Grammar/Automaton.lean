/-!
The characteristic automaton of a context-free grammar. Symbols are numbered: those below
`terminals` are terminals, the others nonterminals. A state is the set of items that start it;
all productions that may begin at a state belong to its closure.
-/

namespace SattLine.Grammar

structure Numbered where
  left : Nat
  right : List Nat
  deriving DecidableEq, Repr

/-- A context-free grammar over numbered symbols. Production 0 is the start production; it ends
with the terminal that stands for the end of the text. -/
structure Cfg where
  terminals : Nat
  symbols : Nat
  productions : Array Numbered

/-- A production and the number of its symbols that are behind the dot. -/
structure Item where
  production : Nat
  dot : Nat
  deriving DecidableEq, Repr, Inhabited

namespace Cfg

variable (g : Cfg)

def isTerminal (symbol : Nat) : Bool :=
  symbol < g.terminals

def right (production : Nat) : List Nat :=
  (g.productions[production]?.map Numbered.right).getD []

def left (production : Nat) : Nat :=
  (g.productions[production]?.map Numbered.left).getD 0

def next? (item : Item) : Option Nat :=
  (g.right item.production)[item.dot]?

def alternatives : Array (List Nat) :=
  (List.range g.productions.size).reverse.foldl
    (fun table number => table.modify (g.left number) (number :: ·))
    (Array.replicate g.symbols [])

/-- The nonterminals that can begin a state's remaining input: all that stand behind a dot,
then those that begin one of their productions, and so on. Sets of symbols are bit masks. -/
def closureSymbols (alternatives : Array (List Nat)) : Nat → List Nat → Nat → Nat
  | 0, _, seen => seen
  | _, [], seen => seen
  | fuel + 1, symbol :: waiting, seen =>
    if g.isTerminal symbol || seen.testBit symbol then
      closureSymbols alternatives fuel waiting seen
    else
      let heads := (alternatives.getD symbol []).filterMap fun number => (g.right number).head?
      closureSymbols alternatives fuel (heads ++ waiting) (seen ||| 1 <<< symbol)

/-- The items of a state: those that start it and the beginnings of the productions that its
closure adds. -/
def closure (alternatives : Array (List Nat)) (kernel : List Item) : List Item :=
  let fuel := kernel.length + g.productions.size + 1
  let seen := g.closureSymbols alternatives fuel (kernel.filterMap g.next?) 0
  let added := (List.range g.symbols).filter seen.testBit
  kernel ++ added.flatMap fun symbol => (alternatives.getD symbol []).map (⟨·, 0⟩)

/-- The items that each symbol leads to, sorted by symbol. Items keep their order. -/
def successors (items : List Item) : List (Nat × List Item) :=
  let moves := items.filterMap fun item =>
    (g.next? item).map fun symbol => (symbol, (⟨item.production, item.dot + 1⟩ : Item))
  let symbols := (moves.map Prod.fst).mergeSort.eraseDups
  symbols.map fun symbol =>
    (symbol, (moves.filter (·.1 == symbol)).map Prod.snd)

end Cfg

/-- A state of the automaton: its first items, all its items, and where each symbol leads. -/
structure Node where
  kernel : List Item
  items : List Item
  edges : List (Nat × Nat)
  deriving Inhabited

def Item.goesBefore (first second : Item) : Bool :=
  first.production < second.production ||
    (first.production == second.production && first.dot < second.dot)

/-- Puts an item into its place in a list that is in order, unless it is there already. -/
def Item.insert (item : Item) : List Item → List Item
  | [] => [item]
  | other :: rest =>
    if item.goesBefore other then item :: other :: rest
    else if other.goesBefore item then other :: insert item rest
    else other :: rest

/-- Items are kept in one order and each of them once, so that equal sets of items are equal
lists. -/
def Item.inOrder (items : List Item) : List Item :=
  items.foldr Item.insert []

/-- The number of the state with the given first items; unknown states are appended. -/
def stateNumber (known : Array (List Item)) (kernel : List Item) : Nat × Array (List Item) :=
  match known.findIdx? (· == kernel) with
  | some number => (number, known)
  | none => (known.size, known.push kernel)

namespace Cfg

variable (g : Cfg)

/-- Explores the states from number `done.size` on; each exploration may find new ones. -/
def explore (alternatives : Array (List Nat)) :
    Nat → Array (List Item) → Array Node → Array Node
  | 0, _, done => done
  | fuel + 1, known, done =>
    match known[done.size]? with
    | none => done
    | some kernel =>
      let items := g.closure alternatives kernel
      let (edges, known) := (g.successors items).foldl
        (fun (edges, known) (symbol, moved) =>
          let (number, known) := stateNumber known (Item.inOrder moved)
          ((symbol, number) :: edges, known))
        ([], known)
      explore alternatives fuel known (done.push ⟨kernel, items, edges.reverse⟩)

/-- A state is a set of items, so there are no more states than sets of items. -/
def stateLimit : Nat :=
  Nat.pow 2 (g.productions.toList.foldr
    (fun production count => production.right.length + 1 + count) 0)

/-- All states that can be reached from the beginning of the start production. -/
def automaton : Array Node :=
  g.explore g.alternatives g.stateLimit #[[⟨0, 0⟩]] #[]

end Cfg

end SattLine.Grammar
