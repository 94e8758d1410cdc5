import SattLine.Compare.Tree

/-!
The structure of a module, for finding out whether modules of one name are alike.
-/

namespace SattLine.Compare

structure Fingerprint where
  path : Path
  info : SingleInfo
  submodules : List Module
  sequences : List Value
  equations : List Value
  parameters : List Profile
  locals : List Profile
  tree : List TreeNode
  mappings : List Profile

namespace Fingerprint

def codeItems (code : Value) (name : String) : Except Fault (List Value) := do
  if code.holds then (← code.field name).items else return []

def create (path : Path) (info : SingleInfo) (submodules : List Module) :
    Except Fault Fingerprint := do
  let sequences ← codeItems info.code "sequences"
  let equations ← codeItems info.code "equations"
  if !info.absent.isEmpty then throw .wrongType
  let parameters ← variableProfiles info.parameters
  let locals ← variableProfiles info.locals
  let tree ← treeBelow treeLimit 0 submodules
  let mappings ← mappingProfiles info.mappings
  return ⟨path, info, submodules, sequences, equations, parameters, locals, tree,
    mappings⟩

def ofValue (path : Path) (v : Value) : Except Fault Fingerprint := do
  match ← v.toModule.run {} with
  | (.single info submodules, _) => create path info submodules
  | _ => throw .missingMember

/-- Whether two modules agree in all but their code. -/
def sameShape (a b : Fingerprint) : Bool :=
  a.info.parameters.length == b.info.parameters.length &&
    a.info.locals.length == b.info.locals.length &&
    a.submodules.length == b.submodules.length &&
    a.sequences.length == b.sequences.length &&
    a.equations.length == b.equations.length &&
    a.parameters == b.parameters && a.locals == b.locals && a.tree == b.tree &&
    a.mappings == b.mappings

end Fingerprint

def fingerprintsOf (v : Value) : Except Fault (List Fingerprint) := do
  (← v.elements).mapM (Fingerprint.ofValue [])

def codeName (v : Value) : Except Fault String := do
  match (← v.field "name").text? with
  | some s => return s
  | none => throw .missingMember

/-- The plain names of the sequences and of the equations, each in order. -/
structure CodeNames where
  sequences : List String
  equations : List String
  deriving DecidableEq, Repr

def codeNames (f : Fingerprint) : Except Fault CodeNames := do
  let sequences ← f.sequences.mapM codeName
  let equations ← f.equations.mapM codeName
  return ⟨Text.sorted (sequences.map plainName), Text.sorted (equations.map plainName)⟩

end SattLine.Compare
