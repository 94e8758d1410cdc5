import SattLine.Compare.Profile

/-!
The tree of modules below a module, as the set of its nodes. Two trees count as alike if they
have the same nodes, each with its depth, plain name and kind.
-/

namespace SattLine.Compare

/-- A module below another one: how deep it stands, its name and its kind. -/
structure TreeNode where
  depth : Int
  name : String
  kind : String
  deriving DecidableEq, Repr

namespace TreeNode

def compare (a b : TreeNode) : Ordering :=
  (Ord.compare a.depth b.depth).then <|
    (Ord.compare a.name b.name).then (Ord.compare a.kind b.kind)

/-- A set of nodes: each once, in order. -/
def sortedSet (nodes : List TreeNode) : List TreeNode :=
  nodes.eraseDups.mergeSort fun a b => compare b a != .lt

end TreeNode

/-- The nodes at and below one depth. Beyond the limit nothing is looked at, and a list that is
left out cannot be. -/
def bounded (limit depth : Int) (absent : Bool) (nodes : Except Fault (List TreeNode)) :
    Except Fault (List TreeNode) :=
  if depth > limit then .ok []
  else if absent then .error .wrongType
  else nodes

def headerName (header : Value) : Except Fault String := do
  return plainName (← (← header.field "name").name)

/-- A value in the place of a module has no node, but it has to have a name. -/
def strayNodes (v : Value) : Except Fault (List TreeNode) := do
  let _ ← headerName (← v.field "header")
  return []

/-- Whether a depth is beyond a limit, which has to be a number. -/
def isBeyond (limit : Value.Key) (depth : Int) : Except Fault Bool :=
  match limit.isBefore? (.number depth 0) with
  | some isBeyond => .ok isBeyond
  | none => .error .wrongType

mutual

/-- The nodes of a module that is given as a value. Only names and submodules are looked at. -/
def treeOfValue (limit : Value.Key) (depth : Int) : Value → Except Fault (List TreeNode)
  | .element .singleModule [header, _, _, _, _, submodules, _, _] => do
    let name ← headerName header
    let below ← treesInValue limit (depth + 1) submodules
    return ⟨depth, name, "Single"⟩ :: below
  | .element .frameModule [header, _, submodules, _, _] => do
    let name ← headerName header
    let below ← treesInValue limit (depth + 1) submodules
    return ⟨depth, name, "Frame"⟩ :: below
  | .element .typeInstance [header, typeName, _] => do
    let name ← headerName header
    return [⟨depth, name, "Instance:" ++ plainName (← typeName.name)⟩]
  | v => strayNodes v

/-- The nodes of the modules in a value that stand at a depth. -/
def treesInValue (limit : Value.Key) (depth : Int) : Value → Except Fault (List TreeNode)
  | .list modules | .tuple modules | .dict modules _ => do
    if ← isBeyond limit depth then return [] else treesOfValues limit depth modules
  | v => do
    if ← isBeyond limit depth then return []
    else if (← v.elements).isEmpty then return []
    else throw .missingMember

def treesOfValues (limit : Value.Key) (depth : Int) : List Value → Except Fault (List TreeNode)
  | [] => .ok []
  | v :: rest => do
    let first ← treeOfValue limit depth v
    let others ← treesOfValues limit depth rest
    return first ++ others

end

mutual

/-- The nodes of a module and of those below it, down to a depth. -/
def treeOf (limit depth : Int) : Module → Except Fault (List TreeNode)
  | .single info submodules => do
    let below ← bounded limit (depth + 1) (info.absent.contains "submodules")
      (treesOf limit (depth + 1) submodules)
    return ⟨depth, plainName info.header.name, "Single"⟩ :: below
  | .frame info submodules => do
    let below ← bounded limit (depth + 1) (info.absent.contains "submodules")
      (treesOf limit (depth + 1) submodules)
    return ⟨depth, plainName info.header.name, "Frame"⟩ :: below
  | .typed info =>
    .ok [⟨depth, plainName info.header.name, "Instance:" ++ plainName info.typeName⟩]
  | .stray v => treeOfValue (.number limit 0) depth v

def treesOf (limit depth : Int) : List Module → Except Fault (List TreeNode)
  | [] => .ok []
  | m :: rest => do
    let first ← treeOf limit depth m
    let others ← treesOf limit depth rest
    return first ++ others

end

def treeBelow (limit depth : Int) (ms : List Module) : Except Fault (List TreeNode) := do
  let nodes ← bounded limit depth false (treesOf limit depth ms)
  return TreeNode.sortedSet nodes

/-- How deep the modules below a module are compared. -/
def treeLimit : Int := 10

def treeInValue (limit depth v : Value) : Except Fault (List TreeNode) := do
  match depth.int? with
  | some depth => return TreeNode.sortedSet (← treesInValue (← limit.key) depth v)
  | none => throw .wrongType

end SattLine.Compare
