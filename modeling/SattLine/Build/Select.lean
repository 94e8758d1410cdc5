import SattLine.Build.Refusal
import SattLine.Number.Read

/-!
Picking the parts of a construction out of the values of its children.
-/

namespace SattLine.Build

open Number

def firstOrNull (p : Value → Bool) (items : List Value) : Value :=
  (items.find? p).getD .null

def lastOrNull (p : Value → Bool) (items : List Value) : Value :=
  ((items.filter p).getLast?).getD .null

/-- The values that no lexeme stands for. -/
def withoutTokens (items : List Value) : List Value :=
  items.filter fun v => !v.isToken

def isInt (v : Value) : Bool :=
  v.int?.isSome

/-- A text, or the empty text in place of an empty or missing one. -/
def orEmpty (v : Value) : Value :=
  if v.holds then v else .text ""

/-- A list, or the null value in place of an empty one. -/
def orNull (items : List Value) : Value :=
  if items.isEmpty then .null else .list items

/-- The elements of one kind among the children of the trees with a label. -/
def elementsUnder (label : String) (kind : Element) (items : List Value) : List Value :=
  items.flatMap fun v => ((v.treeChildren? label).getD []).filter (Value.isElement kind)

def lastChildren (label : String) (items : List Value) : List Value :=
  ((items.filterMap (Value.treeChildren? label)).getLast?).getD []

def allChildren (label : String) (items : List Value) : List Value :=
  items.flatMap fun v => (v.treeChildren? label).getD []

def itemAt (items : List Value) (index : Nat) : Result Value :=
  match items[index]? with
  | some v => .ok v
  | none => .error (.fault .outOfRange)

def lastItem (items : List Value) : Result Value :=
  match items.getLast? with
  | some v => .ok v
  | none => .error (.fault .outOfRange)

/-- The real number that a number or a text stands for. -/
def readReal (v : Value) : Except Fault Double :=
  match v.text? with
  | some s =>
    match readDouble? s with
    | some x => .ok x
    | none => .error .badValue
  | none => v.toDouble

def reals (items : List Value) : Except Fault (List Double) :=
  (items.filter Value.isNumber).mapM Value.toDouble

/-- A pair of reals, as places and sizes are written. -/
def realPair (x y : Double) : Value :=
  .tuple [.real x, .real y]

def numberPair? : Value → Option (Value × Value)
  | .tuple [x, y] => if x.isNumber && y.isNumber then some (x, y) else none
  | _ => none

mutual

/-- Opens nested lists and module bodies. -/
def flatten : Value → List Value
  | .list items => flattenAll items
  | .tree "base_module_body" _ children | .tree "module_body" _ children => flattenAll children
  | v => [v]

def flattenAll : List Value → List Value
  | [] => []
  | v :: rest => flatten v ++ flattenAll rest

end

end SattLine.Build
