import SattLine.Build.Select

/-!
Code: expressions, statements, the nodes of sequences, and the blocks of equations and
sequences.
-/

namespace SattLine.Build

/-- An operation with any number of operands; a single operand stands for itself. -/
def chain (op : String) (items : List Value) : Value :=
  match withoutTokens items with
  | [operand] => operand
  | operands => .tuple [.text op, .list operands]

def negation : List Value → Value
  | [] => .null
  | [operand] => operand
  | _ :: operand :: _ => .tuple [.text "NOT", operand]

def symbolOf : Value → Result Value
  | .token _ s => .ok (.text s)
  | v => do return .text (← v.shown)

def operations : List Value → Result (List Value)
  | [] => .ok []
  | [_] => .error (.fault .outOfRange)
  | op :: right :: rest => do
    let op ← symbolOf op
    let others ← operations rest
    return .tuple [op, right] :: others

variable (items : List Value)

def comparison : Result Value := do
  match items with
  | [] => .error (.fault .outOfRange)
  | left :: rest =>
    match ← operations rest with
    | [] => return left
    | pairs => return .tuple [.text "compare", left, .list pairs]

def arithmetic (op : String) (items : List Value) : Result Value := do
  match items with
  | [] => .error (.fault .outOfRange)
  | [operand] => return operand
  | left :: rest => return .tuple [.text op, left, .list (← operations rest)]

def signed : Result Value := do
  match items with
  | [operand] => return operand
  | [.token "PLUS" _, operand] => return .tuple [.text "PLUS", operand]
  | [.token "MINUS" _, operand] => return .tuple [.text "MINUS", operand]
  | [op, operand] => return .tuple [← symbolOf op, operand]
  | _ => .error (.fault .badValue)

/-- The name of a called function is the first text; the arguments are what stands last. -/
def call : Value → Value → List Value → Value
  | name, arguments, [] => .tuple [.text "FunctionCall", name, arguments]
  | name, arguments, v :: rest =>
    if v.isText && name.isNull then call v arguments rest
    else if v.isToken then call name arguments rest
    else call name v rest

def functionCall : Value :=
  call .null (.list []) items

/-- The branches of a conditional expression in their order, and what stands behind its last
`ELSE`. -/
def choices (branches : List Value) (otherwise : Value) : List Value → Result Value
  | [] => .ok (.tuple [.text "Ternary", .list branches, otherwise])
  | .token "IF" _ :: condition :: _ :: choice :: rest
  | .token "ELSIF" _ :: condition :: _ :: choice :: rest =>
    choices (branches ++ [.tuple [condition, choice]]) otherwise rest
  | .token "ELSE" _ :: choice :: rest => choices branches choice rest
  | .token "IF" _ :: _ | .token "ELSIF" _ :: _ | [.token "ELSE" _] => .error (.fault .outOfRange)
  | _ :: rest => choices branches otherwise rest

def conditionalExpression : Result Value :=
  choices [] .null items

/-- The places inside a conditional statement. -/
inductive IfPlace where
  | between
  | atCondition
  | atThen (condition : Value)
  | inBlock (condition : Value) (statements : List Value)
  | inElse (statements : List Value)

def keyword? : Value → Option String
  | .token kind _ => some kind
  | _ => none

def branchOf (condition : Value) (statements : List Value) : Value :=
  .tuple [condition, .list statements]

/-- The branches of a conditional statement and the block behind its last `ELSE`. -/
def ifParts : IfPlace → List Value → Result (List Value × Option (List Value))
  | .between, [] => .ok ([], none)
  | .atCondition, [] => .error (.fault .outOfRange)
  | .atThen condition, [] => .ok ([branchOf condition []], none)
  | .inBlock condition statements, [] => .ok ([branchOf condition statements], none)
  | .inElse statements, [] => .ok ([], some statements)
  | .between, v :: rest =>
    match keyword? v with
    | some "IF" | some "ELSIF" => ifParts .atCondition rest
    | some "ELSE" => ifParts (.inElse []) rest
    | _ => ifParts .between rest
  | .atCondition, v :: rest => ifParts (.atThen v) rest
  | .atThen condition, _ :: rest => ifParts (.inBlock condition []) rest
  | .inBlock condition statements, v :: rest =>
    let closing (place : IfPlace) : Result (List Value × Option (List Value)) := do
      let (branches, otherwise) ← ifParts place rest
      return (branchOf condition statements :: branches, otherwise)
    match keyword? v with
    | some "ELSIF" => closing .atCondition
    | some "ELSE" => closing (.inElse [])
    | some "ENDIF" => closing .between
    | _ => ifParts (.inBlock condition (statements ++ [v])) rest
  | .inElse statements, v :: rest =>
    match keyword? v with
    | some "ENDIF" => do
      let (branches, otherwise) ← ifParts .between rest
      return (branches, some (otherwise.getD statements))
    | _ => ifParts (.inElse (statements ++ [v])) rest

def conditionalStatement : Result Value := do
  let (branches, otherwise) ← ifParts .between items
  let otherwise := match otherwise with
    | some statements => .list statements
    | none => .null
  return .tuple [.text "IF", .list branches, otherwise]

def assignment : Result Value := do
  return .tuple [.text "assign", ← itemAt items 0, ← lastItem items]

def statement : Result Value :=
  match (withoutTokens items).head? with
  | some v => .ok (.tree "Statement" false [v])
  | none => refuse (.noStatement items)

/-- The statements among the items, opened. -/
def statementsOf : List Value :=
  allChildren "Statement" items

def action (key : String) (items : List Value) : Value :=
  Value.ofEntries [(key, .list (statementsOf items))]

/-- The items by which a list is extended. -/
def extension (v : Value) : Result (List Value) := do
  if v.holds then return ← v.elements else return []

def codeBlocks : Result Value := do
  let gather (key : String) : Result Value := do
    let parts ← (items.filterMap fun v => v.get? key).mapM extension
    return .list parts.flatten
  return .element .codeBlocks [← gather "enter", ← gather "active", ← gather "exit"]

def step (kind : String) (items : List Value) : Value :=
  let blocks := match lastOrNull (Value.isElement .codeBlocks) items with
    | .null => Value.ofFields .codeBlocks []
    | blocks => blocks
  .element .step [.text kind, orEmpty (firstOrNull Value.isText items), blocks]

/-- A transition: the first text names it, and the last other value is its condition. -/
def transitionFrom : Value → Value → List Value → Value
  | name, condition, [] => .element .transition [name, condition]
  | name, condition, v :: rest =>
    if v.isText && name.isNull then transitionFrom v condition rest
    else if v.isToken then transitionFrom name condition rest
    else transitionFrom name v rest

def transition : Value :=
  transitionFrom .null .null items

/-- A named part of a sequence with nodes of its own. -/
def nested (kind : Element) (items : List Value) : Value :=
  .element kind [orEmpty (firstOrNull Value.isText items), .list (lastChildren "sequence_body" items)]

def branches (kind : Element) (items : List Value) : Value :=
  .element kind [.list ((items.filterMap (Value.treeChildren? "sequence_body")).map .list)]

def fork : Value :=
  .element .fork [orEmpty (firstOrNull Value.isText items)]

/-- Reals given by two items that are not lexemes. -/
def placeOf : Result Value := do
  match ← (withoutTokens items).mapM (fun v => (readReal v : Result _)) with
  | x :: y :: _ => return realPair x y
  | _ => .error (.fault .outOfRange)

/-- The first two pairs of numbers among the items, as reals. -/
def placesOf : Result (List Value) :=
  ((items.filterMap numberPair?).take 2).mapM fun (x, y) => do
    return realPair (← x.toDouble) (← y.toDouble)

/-- The name, place and size that every block of code needs. -/
def blockFrame : Result (Value × Value × Value) := do
  let places ← placesOf items
  match firstOrNull (fun v => v.isText && !v.isToken) items, places with
  | .null, _ => refuse .blockWithoutName
  | _, [] => refuse .blockWithoutPosition
  | _, [_] => refuse .blockWithoutSize
  | name, position :: size :: _ => return (name, position, size)

def equationBlock : Result Value := do
  let (name, position, size) ← blockFrame items
  return .element .equation [name, position, size, .list (statementsOf items)]

/-- The kind of a sequence is what the last lexeme that names one says. -/
def sequenceKind : String :=
  let kinds := (items.filterMap keyword?).filter fun kind =>
    kind == "SEQUENCE" || kind == "OPENSEQUENCE"
  (kinds.getLast?).getD "SEQUENCE"

def sequence : Result Value := do
  let (name, position, size) ← blockFrame items
  let controls := (allChildren "seq_control_opt" items).filterMap keyword?
  return .element .sequence [name, .text (sequenceKind items), position, size,
    .bool (controls.contains "SeqControl"), .bool (controls.contains "SeqTimer"),
    .list (allChildren "sequence_body" items)]

def moduleCode : Value :=
  .element .moduleCode [.list (items.filter (Value.isElement .sequence)),
    .list (items.filter (Value.isElement .equation))]

/-- A literal is the only item of its rule. -/
def literal : Result Value :=
  match items with
  | [] => refuse .valueMissing
  | [.null] => refuse .valueNull
  | [v] => .ok v
  | _ => refuse (.valueTooMany items.length (.list items))

end SattLine.Build
