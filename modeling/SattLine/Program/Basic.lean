import SattLine.Value.Basic

/-!
A program as the analyses see it: the picture, its module types, the modules below them and
the variables that they declare. Code, graphics and record types stay values. Every variable
has a number of its own, under which its uses are kept.
-/

namespace SattLine

/-- The data type of a variable: a simple type, or a record type by name. -/
inductive TypeRef where
  | simple (type : SimpleType)
  | record (name : String)
  deriving DecidableEq, Repr

namespace TypeRef

def text : TypeRef → String
  | .simple type => type.name
  | .record name => name

def isSimple : TypeRef → Bool
  | .simple _ => true
  | .record _ => false

end TypeRef

/-- A declared variable. Two variables may have one name; the number tells them apart. -/
structure Variable where
  id : Nat
  name : String
  type : TypeRef
  isGlobal : Value
  const : Value
  state : Value
  opsave : Value
  secure : Value
  init : Value
  description : Value

namespace Variable

/-- The name in small letters, by which the variable is found. -/
def key (v : Variable) : String :=
  Text.lower v.name

end Variable

/-- The invocation of a module. `enableTail` is the condition under which it is enabled and
`groupConn` the variable that puts it into a scan group. -/
structure Header where
  name : String
  coord : Value
  layer : Value
  enable : Value
  zoomLimits : Value
  zoomable : Value
  enableTail : Value
  groupConn : Value
  groupGlobal : Value

/-- The connection of a module parameter, the target, to a variable or a literal around the
module. -/
structure Mapping where
  target : Value
  sourceType : Value
  isDuration : Value
  isGlobal : Value
  source : Value
  literal : Value

/-- A module with variables and code of its own. -/
structure SingleInfo where
  header : Header
  definition : Value
  dateCode : Value
  parameters : List Variable
  locals : List Variable
  code : Value
  mappings : List Mapping
  /-- The lists that are left out rather than empty. -/
  absent : List String

/-- A module that only frames others: its code and graphics use the variables around it. -/
structure FrameInfo where
  header : Header
  dateCode : Value
  definition : Value
  code : Value
  absent : List String

structure InstanceInfo where
  header : Header
  typeName : String
  mappings : List Mapping
  absent : List String

inductive Module where
  | single (info : SingleInfo) (submodules : List Module)
  | frame (info : FrameInfo) (submodules : List Module)
  | typed (info : InstanceInfo)
  /-- A value that stands in the place of a module and is none that can be read. -/
  | stray (value : Value)

structure TypeDef where
  name : String
  dateCode : Value
  parameters : List Variable
  locals : List Variable
  submodules : List Module
  definition : Value
  code : Value
  mappings : List Mapping
  groupConn : Value
  groupGlobal : Value
  originFile : Value
  originLib : Value
  absent : List String

structure Picture where
  header : Header
  name : Value
  position : Value
  records : List Value
  types : List TypeDef
  locals : List Variable
  submodules : List Module
  definition : Value
  code : Value
  originFile : Value
  originLib : Value
  absent : List String

namespace SingleInfo

def scope (info : SingleInfo) : List Variable :=
  info.parameters ++ info.locals

end SingleInfo

namespace TypeDef

def scope (type : TypeDef) : List Variable :=
  type.parameters ++ type.locals

/-- The name in small letters, by which the type is found. -/
def key (type : TypeDef) : String :=
  Text.lower type.name

end TypeDef

end SattLine
