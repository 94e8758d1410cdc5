import SattLine.Program.ToValue
import SattLine.Usage.Analysis
import SattLine.Value.Reach

/-!
Parts of a program that can be looked at alone: a module, a module type, a variable, a scope or
any value. A part that is given as a value is read when it is needed, and the variables in it
are declared then.
-/

namespace SattLine

inductive Part where
  | value (v : Value)
  | scope (vs : List Variable)
  | whole (p : Picture)
  | inner (m : Module)
  | inners (ms : List Module)
  | type (t : TypeDef)
  | declared (v : Variable)

namespace Part

def toValue (marks : Marks) : Part → Value
  | .value v => v
  | .whole p => p.toValue marks
  | .inners ms => .list (Module.toValues marks ms)
  | .inner m => m.toValue marks
  | .type t => t.toValue marks
  | .declared v => v.toValue marks
  | .scope _ => .dict [] []

/-- What stands at the end of a way through lists of modules. -/
def below? : List Value.Step → List Module → Option Part
  | [], modules => some (.inners modules)
  | [.item i], modules => (Value.itemAt? modules i).map .inner
  | .item i :: .field "submodules" :: way, modules =>
    match Value.itemAt? modules i with
    | some (.single _ below) | some (.frame _ below) => below? way below
    | _ => none
  | _, _ => none

def ofWay (p : Picture) (marks : Marks) (way : List Value.Step) : Except Fault Part :=
  let found : Option Part := match way with
    | [] => some (.whole p)
    | .field "submodules" :: rest => below? rest p.submodules
    | [.field "moduletype_defs", .item i] => (Value.itemAt? p.types i).map .type
    | .field "moduletype_defs" :: .item i :: .field "submodules" :: rest =>
      (Value.itemAt? p.types i).bind fun t => below? rest t.submodules
    | [.field "localvariables", .item i] => (Value.itemAt? p.locals i).map .declared
    | _ => none
  match found with
  | some part => .ok part
  | none => do return .value (← (p.toValue marks).reach way)

open Usage

def declare (read : Value → Declaring α) (v : Value) : Walk α := do
  match (read v).run (← get).marks with
  | .ok (a, marks) =>
    modify fun s => { s with marks := marks }
    return a
  | .error f => throw (.fault f)

def asValue (part : Part) : Walk Value := do
  return part.toValue (← get).marks

def read (f : Value → Except Fault α) (part : Part) : Walk α := do
  Walk.ofFault (f (← part.asValue))

/-- The module that a part is. One with modules of its own has to be readable. -/
def asModule (part : Part) : Walk Module := do
  let m ← match part with
    | .inner m => pure m
    | part => do declare Value.toModule (← part.asValue)
  match m with
  | .stray v =>
    if v.isElement .singleModule || v.isElement .frameModule then throw (.fault .missingMember)
    else return m
  | m => return m

def asModules : Part → Walk (List Module)
  | .inners ms => return ms
  | part => do declare Value.toModules (← part.asValue)

def asType : Part → Walk TypeDef
  | .type t => return t
  | part => do declare Value.toTypeDef (← part.asValue)

def asVariable : Part → Walk (Option Variable)
  | .declared v => return some v
  | .value .null => return none
  | part => do return some (← declare Value.toVariable (← part.asValue))

/-- The variables of a scope, which can be given as a dictionary. -/
def asScope : Part → Walk (List Variable)
  | .scope vs => return vs
  | .value (.dict _ values) => values.mapM (declare Value.toVariable)
  | _ => throw (.fault .missingMember)

def asNames (part : Part) : Walk (List String) :=
  part.read Value.toPath

/-- The path in which variables are marked; only a list of names is one. -/
def asPath? (part : Part) : Walk (Option Path) := do
  match ← part.asValue with
  | .list items => return (Value.list items).toPath.toOption
  | _ => return none

def asPath (part : Part) : Walk Path := do
  match ← part.asPath? with
  | some path => return path
  | none => throw (.fault .wrongType)

end Part

namespace Picture

/-- Sets the file of the picture, and those of module types by their names. -/
def setFiles (file : Value) (files : List (String × Value)) (p : Picture) : Picture :=
  { p with
    originFile := file
    types := p.types.map fun t => { t with originFile := (files.lookup t.name).getD t.originFile } }

end Picture

end SattLine
