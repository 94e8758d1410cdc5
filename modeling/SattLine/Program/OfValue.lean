import SattLine.Program.Marks

/-!
The program that a picture value describes. Variables are numbered in the order in which they
are met, and the uses that their values already state become their first marks.
-/

namespace SattLine

/-- Reading a program out of a value declares its variables. -/
abbrev Declaring := StateT Marks (Except Fault)

namespace Value

def fault (f : Fault) : Declaring α :=
  throw f

/-- The items of a list that may be left out: every empty value stands for no items. -/
def items (v : Value) : Except Fault (List Value) :=
  if v.holds then v.elements else .ok []

/-- Whether a list is left out: an empty value that has no items at all. -/
def isAbsent (v : Value) : Bool :=
  !v.holds && v.elements.toOption.isNone

def absentAmong (lists : List (String × Value)) : List String :=
  (lists.filter fun entry => entry.2.isAbsent).map Prod.fst

def toTypeRef : Value → Except Fault TypeRef
  | .simpleType type => .ok (.simple type)
  | .text s | .token _ s => .ok (.record s)
  | _ => .error .wrongType

def toPath (v : Value) : Except Fault Path := do
  (← v.items).mapM name

/-- A recorded use: a path and the kind of access. -/
def toPlace (v : Value) : Except Fault (Path × Access) := do
  let (path, access) ← v.halves
  match Access.ofName? (← access.name) with
  | some access => return (← path.toPath, access)
  | none => throw .badValue

/-- The recorded uses of a variable; what does not say a use is passed over. -/
def toPlaces (v : Value) : List (Path × Access) :=
  ((v.items.toOption).getD []).filterMap fun place => place.toPlace.toOption

def toVariable : Value → Declaring Variable
  | .element .variable [varName, type, isGlobal, const, state, opsave, secure, init, description,
      read, written, places] => do
    let marks ← get
    set (marks.declare ⟨read.holds, written.holds, places.toPlaces⟩)
    return ⟨marks.next, ← varName.name, ← type.toTypeRef, isGlobal, const, state, opsave, secure,
      init, description⟩
  | _ => fault .missingMember

/-- Whether a variable is unused, whether it is only read, and the name of its type. -/
def variableFacts (v : Value) : Except Fault (Bool × Bool × String) := do
  let type ← (← v.field "datatype").toTypeRef
  let usage : Usage := { read := (← v.field "read").holds, written := (← v.field "written").holds }
  return (usage.isUnused, usage.isReadOnly, type.text)

def toVariables (v : Value) : Declaring (List Variable) := do
  (← v.items).mapM toVariable

/-- The invocation of a module. Whatever has a name can stand for one. -/
def toHeader (v : Value) : Except Fault Header := do
  let part (name : String) : Value := (v.field? name).getD .null
  return ⟨← (← v.field "name").name, part "invoke_coord", part "layer_info", part "enable",
    part "zoom_limits", part "zoomable", part "enable_tail", part "groupconn",
    part "groupconn_global"⟩

/-- An invocation about which nothing is known. -/
def noHeader : Header :=
  ⟨"", .null, .null, .null, .null, .null, .null, .null, .null⟩

def toMapping : Value → Except Fault Mapping
  | .element .parameterMapping [target, sourceType, isDuration, isGlobal, source, literal] =>
    .ok ⟨target, sourceType, isDuration, isGlobal, source, literal⟩
  | _ => .error .missingMember

def toMappings (v : Value) : Except Fault (List Mapping) := do
  (← v.items).mapM toMapping

mutual

/-- The module that a value describes. One whose invocation or connections cannot be read is
kept as it is. -/
def toModule : Value → Declaring Module
  | v@(.element .singleModule [header, definition, dateCode, parameters, locals, submodules, code,
      mappings]) => do
    match header.toHeader, mappings.toMappings with
    | .ok header, .ok connections =>
      let ownParameters ← parameters.toVariables
      let ownLocals ← locals.toVariables
      let below ← toModules submodules
      return .single ⟨header, definition, dateCode, ownParameters, ownLocals, code, connections,
        absentAmong [("moduleparameters", parameters), ("localvariables", locals),
          ("submodules", submodules), ("parametermappings", mappings)]⟩ below
    | _, _ => return .stray v
  | v@(.element .frameModule [header, dateCode, submodules, definition, code]) => do
    match header.toHeader with
    | .ok header =>
      let below ← toModules submodules
      return .frame ⟨header, dateCode, definition, code,
        absentAmong [("submodules", submodules)]⟩ below
    | .error _ => return .stray v
  | v@(.element .typeInstance [header, typeName, mappings]) =>
    match header.toHeader, typeName.name, mappings.toMappings with
    | .ok header, .ok typeName, .ok connections =>
      return .typed ⟨header, typeName, connections,
        absentAmong [("parametermappings", mappings)]⟩
    | _, _, _ => return .stray v
  | v => return .stray v

/-- The modules of a list that may be left out. -/
def toModules : Value → Declaring (List Module)
  | .list modules | .tuple modules | .dict modules _ => toModulesOf modules
  | v => do return (← v.items).map .stray

def toModulesOf : List Value → Declaring (List Module)
  | [] => return []
  | v :: rest => do
    let first ← toModule v
    let others ← toModulesOf rest
    return first :: others

end

def toTypeDef : Value → Declaring TypeDef
  | .element .typeDef [typeName, dateCode, parameters, locals, submodules, definition, code,
      mappings, groupConn, groupGlobal, originFile, originLib] => do
    return ⟨← typeName.name, dateCode, ← parameters.toVariables, ← locals.toVariables,
      ← submodules.toModules, definition, code, ← mappings.toMappings, groupConn, groupGlobal,
      originFile, originLib,
      absentAmong [("moduleparameters", parameters), ("localvariables", locals),
        ("submodules", submodules), ("parametermappings", mappings)]⟩
  | _ => fault .missingMember

def toPicture : Value → Declaring Picture
  | .element .basePicture [header, pictureName, position, records, types, locals, submodules,
      definition, code, originFile, originLib, _] => do
    let invocation := header.toHeader.toOption
    return ⟨invocation.getD noHeader, pictureName, position, ← records.items,
      ← (← types.items).mapM toTypeDef, ← locals.toVariables, ← submodules.toModules, definition,
      code, originFile, originLib,
      absentAmong [("datatype_defs", records), ("moduletype_defs", types),
        ("localvariables", locals), ("submodules", submodules)] ++
        if invocation.isSome then [] else ["header"]⟩
  | _ => fault .missingMember

end Value

end SattLine
