/-!
Grammar rules and their productions. A rule is written with optional and repeated parts; its
productions are plain sequences of symbols. A repeated part becomes a helper symbol, shared by
all rules that repeat the same part, whose children belong to the node that uses it.
-/

namespace SattLine.Grammar

/-- One place of a rule. A `mark` is a terminal that leaves nothing in the syntax tree. -/
inductive Part where
  | token (terminal : String)
  | mark (terminal : String)
  | rule (name : String)
  | oneOf (alternatives : List (List Part))
  | opt (alternatives : List (List Part))
  | many (alternatives : List (List Part))
  | some1 (alternatives : List (List Part))

/-- What a reduced production leaves in the syntax tree: a labelled node, a node that gives way
to its only child, or its children alone. -/
inductive Shape where
  | node (label : String)
  | collapsing (label : String)
  | children
  deriving DecidableEq, Repr

structure Rule where
  name : String
  shape : Shape
  alternatives : List (List Part)

def node (name : String) (alternatives : List (List Part)) : Rule :=
  ⟨name, .node name, alternatives⟩

def collapsing (name : String) (alternatives : List (List Part)) : Rule :=
  ⟨name, .collapsing name, alternatives⟩

def labelled (name label : String) (alternatives : List (List Part)) : Rule :=
  ⟨name, .node label, alternatives⟩

/-- The symbols of productions. `repetition` numbers the helper symbols. -/
inductive Symbol where
  | terminal (name : String) (kept : Bool)
  | rule (name : String)
  | repetition (number : Nat)
  deriving DecidableEq, Repr

/-- A repeated part: the symbol sequences that one round of the repetition may be. -/
abbrev Rounds := List (List Symbol)

/-- Adds a repeated part to those known, unless it is known already, and gives its number. -/
def repetitionNumber (known : List Rounds) (rounds : Rounds) : Nat × List Rounds :=
  match known.findIdx? (· == rounds) with
  | some number => (number, known)
  | none => (known.length, known ++ [rounds])

/-- All ways to continue each of the `heads` by one of the `tails`. -/
def continuations (heads tails : List (List Symbol)) : List (List Symbol) :=
  heads.flatMap fun head => tails.map fun tail => head ++ tail

mutual
/-- The symbol sequences of one place of a rule. -/
def Part.sequences (known : List Rounds) : Part → List (List Symbol) × List Rounds
  | .token terminal => ([[.terminal terminal true]], known)
  | .mark terminal => ([[.terminal terminal false]], known)
  | .rule name => ([[.rule name]], known)
  | .oneOf alternatives => alternativeSequences known alternatives
  | .opt alternatives =>
    let (found, known) := alternativeSequences known alternatives
    (found ++ [[]], known)
  | .many alternatives =>
    let (rounds, known) := alternativeSequences known alternatives
    let (number, known) := repetitionNumber known rounds
    ([[.repetition number], []], known)
  | .some1 alternatives =>
    let (rounds, known) := alternativeSequences known alternatives
    let (number, known) := repetitionNumber known rounds
    ([[.repetition number]], known)

def rowSequences (known : List Rounds) : List Part → List (List Symbol) × List Rounds
  | [] => ([[]], known)
  | part :: rest =>
    let (heads, known) := part.sequences known
    let (tails, known) := rowSequences known rest
    (continuations heads tails, known)

def alternativeSequences (known : List Rounds) :
    List (List Part) → List (List Symbol) × List Rounds
  | [] => ([], known)
  | row :: rest =>
    let (first, known) := rowSequences known row
    let (others, known) := alternativeSequences known rest
    (first ++ others, known)
end

structure Production where
  left : Symbol
  right : List Symbol
  shape : Shape
  deriving DecidableEq, Repr

/-- The productions of rules that stand in a list, and the repeated parts met in them. -/
def ruleProductions (known : List Rounds) : List Rule → List Production × List Rounds
  | [] => ([], known)
  | rule :: rest =>
    let (rows, known) := alternativeSequences known rule.alternatives
    let (others, known) := ruleProductions known rest
    (rows.eraseDups.map (⟨.rule rule.name, ·, rule.shape⟩) ++ others, known)

/-- A repetition is one round, or a repetition followed by one more round. -/
def repetitionProductions (number : Nat) (rounds : Rounds) : List Production :=
  rounds.flatMap fun round =>
    [⟨.repetition number, round, .children⟩,
      ⟨.repetition number, .repetition number :: round, .children⟩]

def productions (rules : List Rule) : List Production :=
  let (own, known) := ruleProductions [] rules
  own ++ (known.zipIdx.flatMap fun (rounds, number) => repetitionProductions number rounds)

end SattLine.Grammar
