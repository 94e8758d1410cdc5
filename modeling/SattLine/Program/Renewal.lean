import SattLine.Program.OfValue
import SattLine.Program.ToValue

/-!
The value that a program was read from, with the uses that were found since. Variables are met
in the order in which reading the program numbers them, so the count of those already met is the
number of the next one.
-/

namespace SattLine

/-- Going through a value counts the variables that are met. -/
abbrev Renewing := StateM Nat

namespace Value

/-- The uses of one variable beyond those it had at first. -/
def newPlaces (first now : Marks) (id : Nat) : List (Path × Access) :=
  (now.entries.getD id {}).places.drop (first.entries.getD id {}).places.length

def renewVariable (first now : Marks) : Value → Renewing Value
  | .element .variable fields => do
    let id ← get
    set (id + 1)
    return (newPlaces first now id).foldl (fun v (path, access) => v.noted access path)
      (.element .variable fields)
  | v => return v

def renewItems (renew : Value → Renewing Value) : Value → Renewing Value
  | .list items => do return .list (← items.mapM renew)
  | .tuple items => do return .tuple (← items.mapM renew)
  | v => return v

mutual

/-- Renews a module. One that reading keeps as it is has no numbered variables. -/
def renewModule (first now : Marks) : Value → Renewing Value
  | v@(.element .singleModule [header, definition, dateCode, parameters, locals, submodules, code,
      mappings]) => do
    match header.toHeader, mappings.toMappings with
    | .ok _, .ok _ =>
      let parameters ← renewItems (renewVariable first now) parameters
      let locals ← renewItems (renewVariable first now) locals
      let submodules ← renewModules first now submodules
      return .element .singleModule [header, definition, dateCode, parameters, locals, submodules,
        code, mappings]
    | _, _ => return v
  | v@(.element .frameModule [header, dateCode, submodules, definition, code]) => do
    match header.toHeader with
    | .ok _ =>
      return .element .frameModule [header, dateCode, ← renewModules first now submodules,
        definition, code]
    | .error _ => return v
  | v => return v

def renewModules (first now : Marks) : Value → Renewing Value
  | .list modules => do return .list (← renewModulesOf first now modules)
  | .tuple modules => do return .tuple (← renewModulesOf first now modules)
  | v => return v

def renewModulesOf (first now : Marks) : List Value → Renewing (List Value)
  | [] => return []
  | v :: rest => do
    let renewed ← renewModule first now v
    let others ← renewModulesOf first now rest
    return renewed :: others

end

def renewType (first now : Marks) : Value → Renewing Value
  | .element .typeDef (typeName :: dateCode :: parameters :: locals :: submodules :: rest) => do
    let parameters ← renewItems (renewVariable first now) parameters
    let locals ← renewItems (renewVariable first now) locals
    let submodules ← renewModules first now submodules
    return .element .typeDef (typeName :: dateCode :: parameters :: locals :: submodules :: rest)
  | v => return v

def renewPicture (first now : Marks) : Value → Renewing Value
  | .element .basePicture (header :: pictureName :: position :: records :: types :: locals ::
      submodules :: rest) => do
    let types ← renewItems (renewType first now) types
    let locals ← renewItems (renewVariable first now) locals
    let submodules ← renewModules first now submodules
    return .element .basePicture (header :: pictureName :: position :: records :: types ::
      locals :: submodules :: rest)
  | v => return v

/-- The picture with the uses found since it was read; `first` are the marks right after that. -/
def renewed (first now : Marks) (v : Value) : Value :=
  (Id.run ((renewPicture first now v).run 0)).1

/-- Sets the file of a picture, and those of its module types by their names. -/
def setFiles (v file : Value) (files : List (String × Value)) : Value :=
  let setType (t : Value) : Value :=
    match (t.field? "name").bind text? with
    | some name => match files.lookup name with
      | some file => t.setField "origin_file" file
      | none => t
    | none => t
  let v := v.setField "origin_file" file
  match v.field? "moduletype_defs" with
  | some (.list types) => v.setField "moduletype_defs" (.list (types.map setType))
  | some (.tuple types) => v.setField "moduletype_defs" (.tuple (types.map setType))
  | _ => v

end Value

end SattLine
