import SattLine.Program.Marks

/-!
The value of a program, with the uses of its variables as they stand.
-/

namespace SattLine

namespace TypeRef

def toValue : TypeRef → Value
  | .simple type => .simpleType type
  | .record name => .text name

end TypeRef

/-- A list, or the null value if the list is one of those left out. -/
def Value.listUnless (absent : List String) (name : String) (items : List Value) : Value :=
  if absent.contains name then .null else .list items

namespace Usage

def placesValue (usage : Usage) : Value :=
  .list <| usage.places.map fun place =>
    .tuple [.list (place.1.map .text), .text place.2.name]

end Usage

/-- The field of a variable that says whether it is accessed in a way. -/
def Access.flag : Access → String
  | .read => "read"
  | .write => "written"

namespace Value

/-- A variable or record type as a value, with one more use. -/
def addUse (v : Value) (access : Access) (path : Value) : Except Fault Value :=
  match v.field? "usage_locations", path with
  | some (.list places), .list _ | some (.list places), .dict _ _ =>
    .ok ((v.setField access.flag (.bool true)).setField "usage_locations"
      (.list (places ++ [.tuple [path, .text access.name]])))
  | _, _ => .error .missingMember

/-- The same for a use that is written as a pair of the flag and the path. -/
def addGivenUse (v use : Value) : Except Fault Value := do
  let (flag, path) ← use.halves
  match flag.text? with
  | some "read" => v.addUse .read path
  | some "written" => v.addUse .write path
  | _ => throw .missingMember

/-- The value with one more use at a path, if it keeps its uses. -/
def noted (v : Value) (access : Access) (path : Path) : Value :=
  ((v.addUse access (.list (path.map .text))).toOption).getD v

end Value

namespace Variable

def toValue (marks : Marks) (v : Variable) : Value :=
  let usage := marks.get v
  .element .variable [.text v.name, v.type.toValue, v.isGlobal, v.const, v.state, v.opsave,
    v.secure, v.init, v.description, .bool usage.read, .bool usage.written, usage.placesValue]

end Variable

namespace Header

def toValue (h : Header) : Value :=
  .element .moduleHeader [.text h.name, h.coord, h.layer, h.enable, h.zoomLimits, h.zoomable,
    h.enableTail, h.groupConn, h.groupGlobal]

end Header

namespace Mapping

def toValue (m : Mapping) : Value :=
  .element .parameterMapping [m.target, m.sourceType, m.isDuration, m.isGlobal, m.source,
    m.literal]

end Mapping

namespace Module

mutual

def toValue (marks : Marks) : Module → Value
  | .single info submodules =>
    .element .singleModule [info.header.toValue, info.definition, info.dateCode,
      .listUnless info.absent "moduleparameters" (info.parameters.map (·.toValue marks)),
      .listUnless info.absent "localvariables" (info.locals.map (·.toValue marks)),
      .listUnless info.absent "submodules" (toValues marks submodules),
      info.code,
      .listUnless info.absent "parametermappings" (info.mappings.map Mapping.toValue)]
  | .frame info submodules =>
    .element .frameModule [info.header.toValue, info.dateCode,
      .listUnless info.absent "submodules" (toValues marks submodules), info.definition, info.code]
  | .typed info =>
    .element .typeInstance [info.header.toValue, .text info.typeName,
      .listUnless info.absent "parametermappings" (info.mappings.map Mapping.toValue)]
  | .stray value => value

def toValues (marks : Marks) : List Module → List Value
  | [] => []
  | m :: rest => toValue marks m :: toValues marks rest

end

end Module

namespace TypeDef

def toValue (marks : Marks) (t : TypeDef) : Value :=
  .element .typeDef [.text t.name, t.dateCode,
    .listUnless t.absent "moduleparameters" (t.parameters.map (·.toValue marks)),
    .listUnless t.absent "localvariables" (t.locals.map (·.toValue marks)),
    .listUnless t.absent "submodules" (Module.toValues marks t.submodules), t.definition, t.code,
    .listUnless t.absent "parametermappings" (t.mappings.map Mapping.toValue), t.groupConn,
    t.groupGlobal, t.originFile, t.originLib]

end TypeDef

namespace Picture

def toValue (marks : Marks) (p : Picture) : Value :=
  .element .basePicture [p.header.toValue, p.name, p.position,
    .listUnless p.absent "datatype_defs" p.records,
    .listUnless p.absent "moduletype_defs" (p.types.map (·.toValue marks)),
    .listUnless p.absent "localvariables" (p.locals.map (·.toValue marks)),
    .listUnless p.absent "submodules" (Module.toValues marks p.submodules), p.definition, p.code,
    p.originFile, p.originLib, .null]

end Picture

end SattLine
