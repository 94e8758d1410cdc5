import SattLine.Text.Case

/-!
Routines of the language's library: what they take, what they give and which way each
argument goes.
-/

namespace SattLine

namespace Routine

/-- Which way an argument goes. An `input` may be any expression, a `reference` is a variable that is read, an
`output` is written, and `both` is read and written. -/
inductive Direction where
  | input
  | reference
  | output
  | both
  deriving DecidableEq, Repr

namespace Direction

def reads : Direction → Bool
  | .output => false
  | _ => true

def writes : Direction → Bool
  | .output => true
  | .both => true
  | _ => false

def name : Direction → String
  | .input => "in"
  | .reference => "in var"
  | .output => "out"
  | .both => "inout"

end Direction

/-- A parameter of a routine. `sorted` and `owned` say whether the access takes part in the
sorting of equations and in the ownership of variables. -/
structure Parameter where
  name : String
  dataType : String
  direction : Direction
  sorted : Bool := true
  owned : Bool := true
  deriving DecidableEq, Repr

namespace Parameter

def input (name dataType : String) : Parameter := ⟨name, dataType, .input, true, true⟩

def string (name : String) : Parameter := input name "String"

def integer (name : String) : Parameter := input name "Integer"

def boolean (name : String) : Parameter := input name "Boolean"

def real (name : String) : Parameter := input name "Real"

def reference (name dataType : String) : Parameter := ⟨name, dataType, .reference, true, true⟩

def any (name : String) : Parameter := reference name "AnyType"

def duration : Parameter := reference "Duration" "Duration"

def time : Parameter := reference "Time" "Time"

def timeRecord : Parameter := reference "TimeRecord" "TimeRecord"

def queue : Parameter := reference "Queue" "QueueObject"

def array : Parameter := reference "Array" "ArrayObject"

def unsortedReference (name dataType : String) : Parameter :=
  ⟨name, dataType, .reference, false, true⟩

def output (name dataType : String) : Parameter := ⟨name, dataType, .output, true, true⟩

def unsortedOutput (name dataType : String) : Parameter :=
  ⟨name, dataType, .output, false, true⟩

def both (name dataType : String) : Parameter := ⟨name, dataType, .both, true, true⟩

def looseBoth (name dataType : String) : Parameter := ⟨name, dataType, .both, false, false⟩

def status : Parameter := output "Status" "Integer"

def debugStatus : Parameter := output "DebugStatus" "Integer"

/-- A call that goes on in the background keeps its state here. -/
def operation : Parameter := both "AsyncOperation" "AsyncOperation"

/-- The label for sorting: reading, writing, both or none. -/
def sorting (p : Parameter) : String :=
  match p.sorted, p.direction with
  | false, _ => "NoS"
  | true, .output => "WS"
  | true, .both => "RS/WS"
  | true, _ => "RS"

/-- The label for ownership: reading, writing, both or none. -/
def ownership (p : Parameter) : String :=
  match p.owned, p.direction with
  | false, _ => "NoO"
  | true, .output => "WO"
  | true, .both => "RO/WO"
  | true, _ => "RO"

end Parameter

end Routine

/-- A routine: a function if it gives a value, otherwise a procedure. `precise` says that it may
be called in a precision scan group. -/
structure Routine where
  name : String
  returns : Option String
  precise : Bool
  parameters : List Routine.Parameter
  deriving DecidableEq, Repr

namespace Routine

def function (name returns : String) (precise : Bool) (parameters : List Parameter) : Routine :=
  ⟨name, some returns, precise, parameters⟩

def procedure (name : String) (precise : Bool) (parameters : List Parameter) : Routine :=
  ⟨name, none, precise, parameters⟩

def kind (r : Routine) : String :=
  if r.returns.isSome then "Function" else "Procedure"

/-- The direction of the argument at a place; arguments beyond the last parameter are inputs. -/
def directionAt (r : Routine) (place : Nat) : Direction :=
  match r.parameters[place]? with
  | some p => p.direction
  | none => .input

end Routine

end SattLine
