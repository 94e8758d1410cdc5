import SattLine.Program.Basic
import SattLine.Text.FileName

/-!
Finding variables and module types by name. In a scope the last declaration of a name counts.
In the whole program the variables of the picture come first, then the first declaration of the
name anywhere.
-/

namespace SattLine

namespace Variable

/-- The variable that a name in small letters means in a scope. -/
def find? (scope : List Variable) (name : String) : Option Variable :=
  scope.reverse.find? fun v => v.key == name

end Variable

/-- What a declared variable is for the module that declares it. -/
inductive Role where
  | parameter
  | localVariable
  deriving DecidableEq, Repr

namespace Role

def name : Role → String
  | .parameter => "moduleparameter"
  | .localVariable => "localvariable"

end Role

/-- A variable with the place and the role in which it is declared. -/
structure Declaration where
  path : List String
  role : Role
  declared : Variable

namespace Declaration

def parametersAt (path : List String) (vs : List Variable) : List Declaration :=
  vs.map fun v => ⟨path, .parameter, v⟩

def localsAt (path : List String) (vs : List Variable) : List Declaration :=
  vs.map fun v => ⟨path, .localVariable, v⟩

end Declaration

namespace Module

mutual

/-- The variables that a module and the modules below it declare. -/
def declarations (path : List String) : Module → List Declaration
  | .single info submodules =>
    let path := path ++ [info.header.name]
    Declaration.parametersAt path info.parameters ++ Declaration.localsAt path info.locals ++
      declarationsOf path submodules
  | .frame info submodules => declarationsOf (path ++ [info.header.name]) submodules
  | .typed _ => []
  | .stray _ => []

def declarationsOf (path : List String) : List Module → List Declaration
  | [] => []
  | m :: rest => declarations path m ++ declarationsOf path rest

end

mutual

/-- Whether a module that can hold others cannot be read, here or below. -/
def isBroken : Module → Bool
  | .single _ submodules | .frame _ submodules => areBroken submodules
  | .typed _ => false
  | .stray v => v.isElement .singleModule || v.isElement .frameModule

def areBroken : List Module → Bool
  | [] => false
  | m :: rest => isBroken m || areBroken rest

end

end Module

namespace TypeDef

def label (type : TypeDef) : String :=
  "TypeDef:" ++ type.name

def ownDeclarations (path : List String) (type : TypeDef) : List Declaration :=
  let path := path ++ [type.label]
  Declaration.parametersAt path type.parameters ++ Declaration.localsAt path type.locals

/-- The same, with the variables of the modules inside it. -/
def declarations (path : List String) (type : TypeDef) : List Declaration :=
  type.ownDeclarations path ++ Module.declarationsOf (path ++ [type.label]) type.submodules

end TypeDef

namespace Picture

/-- The variables that the picture and the modules below it declare. -/
def moduleDeclarations (path : List String) (p : Picture) : List Declaration :=
  Declaration.localsAt path p.locals ++ Module.declarationsOf path p.submodules

def allDeclarations (p : Picture) : List Declaration :=
  p.moduleDeclarations [] ++ p.types.flatMap (TypeDef.declarations [])

/-- All variables of the program with where they are declared, which every module has to tell. -/
def declarationPlaces (p : Picture) : Except Fault (List Declaration) :=
  if Module.areBroken p.submodules || p.types.any (fun t => Module.areBroken t.submodules) then
    .error .missingMember
  else .ok p.allDeclarations

/-- The variables that can be found from everywhere. Those of modules inside module types cannot. -/
def findable (p : Picture) : List Variable :=
  (p.moduleDeclarations [] ++ p.types.flatMap (TypeDef.ownDeclarations [])).map
    Declaration.declared

/-- The variable that a name means in the whole program. -/
def find? (p : Picture) (name : String) : Option Variable :=
  if name == "" then none
  else
    let name := Text.lower name
    match Variable.find? p.locals name with
    | some v => some v
    | none => p.findable.find? fun v => v.key == name

/-- The module type of a name; of several with one name the last counts. -/
def type? (p : Picture) (name : String) : Option TypeDef :=
  let name := Text.lower name
  p.types.reverse.find? fun type => type.key == name

def recordKeys (p : Picture) : List String :=
  p.records.filterMap fun record => ((record.field? "name").bind Value.text?).map Text.lower

/-- Whether a file is the one that the picture comes from. A part without a file belongs to the
picture; a picture without a file has no other parts. Only the names of the files count, without
folder, ending and letter case. -/
def isOwnFile (p : Picture) (file : Value) : Except Fault Bool :=
  if !file.holds then .ok true
  else if !p.originFile.holds then .ok false
  else
    match file.text?, p.originFile.text? with
    | some file, some own => .ok (Text.sameName (Text.fileStem file) (Text.fileStem own))
    | _, _ => .error .missingMember

end Picture

end SattLine
