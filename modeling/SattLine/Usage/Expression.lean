import SattLine.Routine.Library
import SattLine.Usage.Occurrence

/-!
The occurrences of variables in expressions and statements. An assignment writes its target
before its value is looked at. Arguments of library routines are accessed as the routine says;
all other references are read, and only looked up among the variables in scope.
-/

namespace SattLine

namespace Routine.Direction

def accesses (d : Direction) : List Access :=
  (if d.reads then [.read] else []) ++ (if d.writes then [.write] else [])

end Routine.Direction

namespace Usage

/-- What goes wrong when a value is to be taken apart into two. -/
def unpairable (v : Value) : List Finding :=
  match v.halves with
  | .ok _ => []
  | .error f => [.fault f]

/-- What goes wrong when the items of a value that has none are asked for. -/
def uncountable (v : Value) : List Finding :=
  match v.elements with
  | .ok _ => []
  | .error f => if v.holds then [.fault f] else []

/-- What goes wrong when the pairs of a value that holds none are asked for. -/
def unbranched (v : Value) : List Finding :=
  match v.elements with
  | .ok items => if items.isEmpty then [] else [.fault .badValue]
  | .error f => if v.holds then [.fault f] else []

/-- The argument of a library routine, if it is a reference. -/
def argument? (routine : Option Routine) (place : Nat) (v : Value) : Option (List Finding) :=
  match routine with
  | none => none
  | some r =>
    if isReference v then some (accesses (r.directionAt place).accesses .scopeThenProgram v)
    else none

/-- The library routine of a name; a call without a name has none. -/
def routineOf (name : Value) : Except Fault (Option Routine) :=
  if !name.holds then .ok none
  else
    match name.text? with
    | some s => .ok (Routine.find? s)
    | none => .error .missingMember

mutual

/-- The occurrences in an expression or a statement. -/
def expression : Value → List Finding
  | .tree label _ children =>
    if label == "Statement" || label == "enable_expression" || label == "InVar_" then
      expressions children
    else []
  | .tuple (op :: operands) =>
    match op.text? with
    | some op => operation op operands
    | none => []
  | .dict keys values =>
    if isReference (.dict keys values) then accesses [.read] .scope (.dict keys values)
    else enabling keys values
  | .list items => expressions items
  | _ => []

def expressions : List Value → List Finding
  | [] => []
  | v :: rest => expression v ++ expressions rest

/-- The expression in a dictionary under the name for enabling expressions. -/
def enabling : List Value → List Value → List Finding
  | key :: keys, v :: values =>
    if key.text? == some "enable_expression" then expression v else enabling keys values
  | _, _ => []

def operation (op : String) : List Value → List Finding
  | [] =>
    match op with
    | "NOT" | "AND" | "OR" => [.fault .outOfRange]
    | "assign" | "IF" | "Ternary" | "FunctionCall" | "compare" | "add" | "mul" | "PLUS"
    | "MINUS" => [.fault .badValue]
    | _ => []
  | first :: rest =>
    match op, rest with
    | "NOT", _ => expression first
    | "AND", _ | "OR", _ => block first
    | "assign", [value] => referenceAccesses [.write] .scope first ++ expression value
    | "IF", [otherwise] => branches first ++ block otherwise
    | "Ternary", [otherwise] => choices first ++ expression otherwise
    | "FunctionCall", [arguments] => call (routineOf first) arguments
    | "compare", [tail] | "add", [tail] | "mul", [tail] => expression first ++ rightSides tail
    | "PLUS", [] | "MINUS", [] => expression first
    | "assign", _ | "IF", _ | "Ternary", _ | "FunctionCall", _ | "compare", _ | "add", _
    | "mul", _ | "PLUS", _ | "MINUS", _ => [.fault .badValue]
    | _, _ => []

def block : Value → List Finding
  | .list items | .tuple items | .dict items _ => expressions items
  | v => uncountable v

/-- The branches of a conditional statement: conditions with blocks. -/
def branches : Value → List Finding
  | .list items | .tuple items | .dict items _ => branchesOf items
  | v => unbranched v

def branchesOf : List Value → List Finding
  | [] => []
  | .tuple [condition, body] :: rest | .list [condition, body] :: rest
  | .dict [condition, body] _ :: rest => expression condition ++ block body ++ branchesOf rest
  | v :: rest => unpairable v ++ branchesOf rest

/-- The branches of a conditional expression: conditions with expressions. -/
def choices : Value → List Finding
  | .list items | .tuple items | .dict items _ => choicesOf items
  | v => unbranched v

def choicesOf : List Value → List Finding
  | [] => []
  | .tuple [condition, choice] :: rest | .list [condition, choice] :: rest
  | .dict [condition, choice] _ :: rest =>
    expression condition ++ expression choice ++ choicesOf rest
  | v :: rest => unpairable v ++ choicesOf rest

/-- The right sides of comparisons, sums and products: operators with operands. -/
def rightSides : Value → List Finding
  | .list items | .tuple items | .dict items _ => rightSidesOf items
  | v => unbranched v

def rightSidesOf : List Value → List Finding
  | [] => []
  | .tuple [_, right] :: rest | .list [_, right] :: rest | .dict [_, right] _ :: rest =>
    expression right ++ rightSidesOf rest
  | v :: rest => unpairable v ++ rightSidesOf rest

def call (routine : Except Fault (Option Routine)) : Value → List Finding
  | .list items | .tuple items | .dict items _ =>
    match routine with
    | .ok routine => arguments routine 0 items
    | .error f => [.fault f]
  | v =>
    match routine with
    | .ok _ => uncountable v
    | .error f => [.fault f]

def arguments (routine : Option Routine) (place : Nat) : List Value → List Finding
  | [] => []
  | v :: rest =>
    (match argument? routine place v with
      | some found => found
      | none => expression v) ++ arguments routine (place + 1) rest

end

end Usage

end SattLine
