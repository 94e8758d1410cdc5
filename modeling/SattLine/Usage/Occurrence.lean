import SattLine.Program.Marks
import SattLine.Text.Split
import SattLine.Value.Shown

/-!
Occurrences of variables: a name, the way it is accessed and where it is looked up. What a
walk over code finds is a list of occurrences in the order of the code; a part of the wrong
shape stands in that list as a problem, and what follows it is not looked at.
-/

namespace SattLine.Usage

/-- Where a name is looked up: among the variables in scope, among these and then in the whole
program, or in the whole program only. -/
inductive Reach where
  | scope
  | scopeThenProgram
  | program
  deriving DecidableEq, Repr

structure Occurrence where
  name : String
  access : Access
  reach : Reach
  deriving DecidableEq, Repr

inductive Problem where
  | fault (fault : Fault)
  /-- A tail that is neither an expression nor a name. -/
  | strangeTail (kind shown : String)
  deriving DecidableEq, Repr

namespace Problem

def message : Problem → Option String
  | .fault _ => none
  | .strangeTail kind shown =>
    some ("_walk_tail: unexpected tail type " ++ kind ++ ": " ++ shown)

end Problem

abbrev Finding := Except Problem Occurrence

namespace Finding

def fault (f : Fault) : Finding :=
  .error (.fault f)

end Finding

/-- The full name in a reference or a text. -/
def fullName? : Value → Option Value
  | .dict keys values => (Value.dict keys values).get? "var_name"
  | .text s => some (.text s)
  | .token kind s => some (.token kind s)
  | _ => none

/-- The variable of a dotted name: the part before the first dot, in small letters. -/
def baseOf (name : String) : Option String :=
  let base := Text.before '.' name
  if base == "" then none else some (Text.lower base)

/-- The variable that a reference or a text names, if it names one. -/
def baseName (v : Value) : Except Fault (Option String) :=
  match fullName? v with
  | none => .ok none
  | some full =>
    if !full.holds then .ok none
    else
      match full.text? with
      | some s => .ok (baseOf s)
      | none => .error .missingMember

/-- A reference by its form: a dictionary with a variable name. -/
def isReference (v : Value) : Bool :=
  v.hasKey "var_name"

/-- The accesses to the variable that a value names. -/
def accesses (kinds : List Access) (reach : Reach) (v : Value) : List Finding :=
  match baseName v with
  | .error f => [.fault f]
  | .ok none => []
  | .ok (some name) => kinds.map fun access => .ok ⟨name, access, reach⟩

/-- The accesses of a reference; any other value is none. -/
def referenceAccesses (kinds : List Access) (reach : Reach) (v : Value) : List Finding :=
  if isReference v then accesses kinds reach v else []

end SattLine.Usage
