import SattLine.Compare.Account
import SattLine.Compare.Difference

/-!
Finding the modules of a name in the program that a picture describes, and comparing them.
-/

namespace SattLine.Compare

/-- A module that was found and the names on the way to it. There is no such way if one of the
names is no text. -/
abbrev Found := Option Path × Value

mutual

/-- The modules of a name at and below a node of the tree: a module, a module type or a picture,
which has its own modules before those of its types. -/
def searchIn (target : String) (path : Option Path) : Value → Except Fault (List Found)
  | .element .singleModule [header, definition, dateCode, parameters, locals, submodules, code,
      mappings] => do
    let name ← (← header.field "name").name
    let inside := path.map (· ++ [name])
    let here := if Text.sameName name target then [(inside, Value.element .singleModule [header,
      definition, dateCode, parameters, locals, submodules, code, mappings])] else []
    let below ← searchBelow target inside submodules
    return here ++ below
  | .element .frameModule [header, _, submodules, _, _] => do
    let name ← header.field "name"
    searchBelow target (path.bind fun path => name.text?.map (path ++ [·])) submodules
  | .element .typeDef [name, _, _, _, submodules, _, _, _, _, _, _, _] => do
    let label := "ModuleTypeDef:" ++ (← name.shown)
    searchBelow target (path.map (· ++ [label])) submodules
  | .element .basePicture [_, _, _, _, types, _, submodules, _, _, _, _, _] => do
    let below ← searchBelow target path submodules
    let inTypes ← searchBelow target path types
    return below ++ inTypes
  | _ => .ok []

/-- The modules of a name among the nodes in a value and below them. -/
def searchBelow (target : String) (path : Option Path) : Value → Except Fault (List Found)
  | .list nodes | .tuple nodes | .dict nodes _ => searchAll target path nodes
  | v => do
    let _ ← v.elements
    return []

def searchAll (target : String) (path : Option Path) : List Value → Except Fault (List Found)
  | [] => .ok []
  | node :: rest => do
    let first ← searchIn target path node
    let others ← searchAll target path rest
    return first ++ others

end

/-- The modules of a name in a program. The ways to them begin with the name of the picture. -/
def search (picture : Value) (target : String) : Except Fault (List Found) := do
  let name ← picture.field "name"
  searchIn target (name.text?.map ([·])) picture

/-- The comparison of all modules of a name, with the account of the search if it is asked for. -/
def duplicates (picture : Value) (target : String) (debug : Bool) :
    Except Fault (Comparison × List String) := do
  let found ← search picture target
  let lines ← if debug then trace picture target found.length else pure []
  let comparison ← compareAll (found.map fun (path, m) => (path.getD [], m))
  if found.any fun (path, _) => path.isNone then throw .wrongType
  return (comparison, lines)

end SattLine.Compare
