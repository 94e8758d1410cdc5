import SattLine.Compare.Tree

/-!
Accounts of the module tree that a picture describes: of the tree as such, and of a search that
goes through it. Whatever stands in the place of a module is named by its kind.
-/

namespace SattLine.Compare

def countLine (margin : String) (count : Nat) : String :=
  margin ++ "  - has " ++ toString count ++ " submodules"

def kindLine (margin : String) (index : Nat) (v : Value) : String :=
  margin ++ "  - submodule[" ++ toString index ++ "] type: " ++ v.kindName

/-- The lines on a node down to a limit. -/
def downTo (limit : Value.Key) (depth : Nat) (lines : Except Fault (List String)) :
    Except Fault (List String) := do
  if ← isBeyond limit depth then return [Text.spaces (2 * depth) ++ "[MAX DEPTH REACHED]"]
  else lines

/-- The lines on a value in the place of a module that is none. -/
def strayLines (limit : Value.Key) (depth : Nat) (v : Value) : Except Fault (List String) :=
  downTo limit depth (.ok [Text.spaces (2 * depth) ++ "? Unknown type: " ++ v.kindName])

def datedLine (margin label : String) (name dateCode parent : Value) : Except Fault String := do
  return margin ++ label ++ ": name=" ++ name.literal ++ ", datecode=" ++ (← dateCode.shown) ++
    ", parent=" ++ parent.literal

mutual

/-- The lines on a module in the account of the module tree. -/
def structureOf (limit : Value.Key) (depth : Nat) (parent : Value) :
    Value → Except Fault (List String)
  | .element .singleModule [header, _, dateCode, _, _, submodules, _, _] =>
    let margin := Text.spaces (2 * depth)
    downTo limit depth do
      let name ← header.field "name"
      let first ← datedLine margin "✓ SingleModule" name dateCode parent
      return first :: (← structureBelow limit (depth + 1) margin name submodules)
  | .element .frameModule [header, dateCode, submodules, _, _] =>
    let margin := Text.spaces (2 * depth)
    downTo limit depth do
      let name ← header.field "name"
      let first ← datedLine margin "○ FrameModule" name dateCode parent
      return first :: (← structureBelow limit (depth + 1) margin name submodules)
  | .element .typeInstance [header, typeName, _] =>
    downTo limit depth do
      return [Text.spaces (2 * depth) ++ "△ ModuleTypeInstance: name=" ++
        (← header.field "name").literal ++ ", type=" ++ typeName.literal ++ ", parent=" ++
        parent.literal]
  | .element .basePicture [_, name, _, _, _, _, submodules, _, _, _, _, _] =>
    let margin := Text.spaces (2 * depth)
    downTo limit depth do
      return (margin ++ "▣ BasePicture: name=" ++ name.literal) ::
        (← structureBelow limit (depth + 1) margin name submodules)
  | v => strayLines limit depth v

def structureBelow (limit : Value.Key) (depth : Nat) (margin : String) (parent : Value) :
    Value → Except Fault (List String)
  | .list ms | .tuple ms | .dict ms _ => do
    return countLine margin ms.length :: (← structuresOf limit depth margin 0 parent ms)
  | v => do
    let strays ← v.elements
    let lines ← strays.zipIdx.mapM fun (stray, index) => do
      return kindLine margin index stray :: (← strayLines limit depth stray)
    return countLine margin strays.length :: lines.flatten

def structuresOf (limit : Value.Key) (depth : Nat) (margin : String) (index : Nat)
    (parent : Value) : List Value → Except Fault (List String)
  | [] => .ok []
  | m :: rest => do
    let first ← structureOf limit depth parent m
    let others ← structuresOf limit depth margin (index + 1) parent rest
    return kindLine margin index m :: (first ++ others)

end

/-- The lines on a module type in the account of the module tree. -/
def typeStructure (type : Value) : Except Fault (List String) := do
  let name ← type.field "name"
  let below ← (← type.field "submodules").elements
  let lines ← below.zipIdx.mapM fun (m, index) => do
    return "    - submodule[" ++ toString index ++ "]: " ++ m.kindName ++ " - " ++
      (← (← m.field "header").field "name").literal
  return ("  ModuleTypeDef: " ++ name.literal) :: countLine "  " below.length :: lines

/-- The account of the module tree of a picture down to a depth. -/
def structureLines (limit picture : Value) : Except Fault (List String) := do
  let name ← picture.field "name"
  let below ← (← picture.field "submodules").elements
  let types ← (← picture.field "moduletype_defs").elements
  let typeLines ← types.mapM typeStructure
  let tree ← structureOf (← limit.key) 0 (.text "") picture
  return ["\n=== DEBUGGING MODULE STRUCTURE ===",
    "BasePicture type: <class 'sattlint.models.ast_model.BasePicture'>",
    "BasePicture name: " ++ name.literal,
    "BasePicture has " ++ toString below.length ++ " submodules",
    "BasePicture has " ++ toString types.length ++ " moduletype_defs",
    "\n--- ModuleTypeDefs ---"] ++ typeLines.flatten ++ ["\n--- Submodules Tree ---"] ++ tree ++
    ["=== END DEBUGGING ===\n"]

/-- The line for a node that a search comes to. Paths are given by the literal forms of names. -/
def visitLine (kind : String) (path : List String) : String :=
  "_walk_modules: checking node type=" ++ kind ++ ", path=" ++ Value.listOf path

/-- The lines for a node that a search passes by. -/
def passLines (path : List String) (v : Value) : List String :=
  [visitLine v.kindName path, "  → Unknown node type: " ++ v.kindName]

def comingLine (index : Nat) (v : Value) : String :=
  "  → Submodule[" ++ toString index ++ "]: " ++ v.kindName

/-- The lines for a module whose name is compared with the one that is looked for. -/
def matchLines (target : String) (name : Value) (text : String) (count : Nat) : List String :=
  let same := Text.sameName text target
  ["  → SingleModule found: " ++ name.literal ++ ", comparing with target=" ++
      Text.quoted target ++ ", match=" ++ (if same then "True" else "False")] ++
    (if same then ["  ✓ MATCH! Adding to results"] else []) ++
    ["  → Checking " ++ toString count ++ " submodules of " ++ name.literal]

mutual

/-- The lines for a node of the tree and for what is below it. -/
def traceOf (target : String) (path : List String) : Value → Except Fault (List String)
  | .element .singleModule [header, _, _, _, _, submodules, _, _] => do
    let name ← header.field "name"
    let text ← name.name
    let (count, below) ← traceBelow target (path ++ [name.literal]) submodules
    return visitLine "SingleModule" path :: (matchLines target name text count ++ below)
  | .element .frameModule [header, _, submodules, _, _] => do
    let name ← header.field "name"
    let (count, below) ← traceBelow target (path ++ [name.literal]) submodules
    return [visitLine "FrameModule" path, "  → FrameModule: " ++ name.literal,
      "  → Checking " ++ toString count ++ " submodules of FrameModule " ++ name.literal] ++ below
  | .element .typeDef [name, _, _, _, submodules, _, _, _, _, _, _, _] => do
    let label := "ModuleTypeDef:" ++ (← name.shown)
    let (count, below) ← traceBelow target (path ++ [Text.quoted label]) submodules
    return [visitLine "ModuleTypeDef" path, "  → ModuleTypeDef: " ++ name.literal,
      "  → Has " ++ toString count ++ " submodules"] ++ below
  | .element .basePicture [_, name, _, _, types, _, submodules, _, _, _, _, _] => do
    let (count, below) ← traceBelow target path submodules
    let (typeCount, inTypes) ← traceTypes target path types
    return [visitLine "BasePicture" path, "  → BasePicture: " ++ name.literal,
      "  → Has " ++ toString count ++ " direct submodules",
      "  → Has " ++ toString typeCount ++ " moduletype_defs"] ++ below ++ inTypes
  | .element .typeInstance [header, _, _] => do
    return [visitLine "ModuleTypeInstance" path,
      "  → ModuleTypeInstance: " ++ (← header.field "name").literal ++ " (no submodules)"]
  | v => .ok (passLines path v)

/-- How many submodules there are in a value, and the lines for them. -/
def traceBelow (target : String) (path : List String) : Value → Except Fault (Nat × List String)
  | .list ms | .tuple ms | .dict ms _ => do return (ms.length, ← tracesOf target path 0 ms)
  | v => do
    let strays ← v.elements
    return (strays.length, strays.zipIdx.flatMap fun (stray, index) =>
      comingLine index stray :: passLines path stray)

def tracesOf (target : String) (path : List String) (index : Nat) :
    List Value → Except Fault (List String)
  | [] => .ok []
  | m :: rest => do
    let first ← traceOf target path m
    let others ← tracesOf target path (index + 1) rest
    return comingLine index m :: (first ++ others)

/-- How many module types there are in a value, and the lines for them. -/
def traceTypes (target : String) (path : List String) : Value → Except Fault (Nat × List String)
  | .list types | .tuple types | .dict types _ => do
    return (types.length, ← tracesOfTypes target path 0 types)
  | v => do
    if (← v.elements).isEmpty then return (0, []) else throw .missingMember

def tracesOfTypes (target : String) (path : List String) (index : Nat) :
    List Value → Except Fault (List String)
  | [] => .ok []
  | type :: rest => do
    let name ← type.field "name"
    let first ← traceOf target path type
    let others ← tracesOfTypes target path (index + 1) rest
    return ("  → ModuleTypeDef[" ++ toString index ++ "]: " ++ name.literal) :: (first ++ others)

end

/-- The account of a search through a picture that found the given number of modules. -/
def trace (picture : Value) (target : String) (count : Nat) : Except Fault (List String) := do
  let lines ← traceOf target [(← picture.field "name").literal] picture
  return ["\n=== SEARCHING FOR '" ++ target ++ "' ==="] ++ lines ++
    ["=== SEARCH COMPLETE: Found " ++ toString count ++ " matches ===\n"]

end SattLine.Compare
