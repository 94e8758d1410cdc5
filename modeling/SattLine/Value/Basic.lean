import SattLine.Number.Double
import SattLine.Text.Case
import SattLine.Value.Moment

/-!
The values a program is made of once it has been read: literals, references, expressions and
statements as tuples, untouched parts of the syntax tree, and the elements of the program
(variables, modules, code blocks and so on) with their fields in a fixed order.
-/

namespace SattLine

open Number

/-- The data types that are not records. -/
inductive SimpleType where
  | string
  | boolean
  | integer
  | identstring
  | tagstring
  | duration
  | linestring
  | maxstring
  | real
  deriving DecidableEq, Repr

namespace SimpleType

def all : List SimpleType :=
  [.string, .boolean, .integer, .identstring, .tagstring, .duration, .linestring, .maxstring, .real]

def name : SimpleType → String
  | .string => "string"
  | .boolean => "boolean"
  | .integer => "integer"
  | .identstring => "identstring"
  | .tagstring => "tagstring"
  | .duration => "duration"
  | .linestring => "linestring"
  | .maxstring => "maxstring"
  | .real => "real"

def ofName? (text : String) : Option SimpleType :=
  all.find? fun type => type.name == Text.lower text

end SimpleType

inductive Element where
  | variable
  | dataType
  | parameterMapping
  | graphObject
  | interactObject
  | moduleDef
  | sequence
  | equation
  | moduleCode
  | moduleHeader
  | singleModule
  | frameModule
  | typeInstance
  | typeDef
  | basePicture
  | codeBlocks
  | step
  | transition
  | alternative
  | parallel
  | subsequence
  | transitionSub
  | fork
  | stop
  | component
  deriving DecidableEq, Repr

inductive Value where
  | null
  | bool (b : Bool)
  | int (n : Int)
  | real (x : Double)
  | text (s : String)
  | moment (m : Moment)
  /-- A lexeme that no construction has consumed. It serves wherever a text does. -/
  | token (kind : String) (text : String)
  | list (items : List Value)
  | tuple (items : List Value)
  /-- Values under keys, in the order in which they were entered. Most keys are names. -/
  | dict (keys : List Value) (values : List Value)
  /-- A part of the syntax tree. `ofRule` says that the label is a rule of the grammar and was
  not chosen by a construction. -/
  | tree (label : String) (ofRule : Bool) (children : List Value)
  | simpleType (type : SimpleType)
  /-- The initial value written as the default of its type. -/
  | typeDefault
  | element (kind : Element) (fields : List Value)
  deriving Inhabited

namespace Element

def all : List Element :=
  [.variable, .dataType, .parameterMapping, .graphObject, .interactObject, .moduleDef, .sequence,
    .equation, .moduleCode, .moduleHeader, .singleModule, .frameModule, .typeInstance, .typeDef,
    .basePicture, .codeBlocks, .step, .transition, .alternative, .parallel, .subsequence,
    .transitionSub, .fork, .stop, .component]

def name : Element → String
  | .variable => "Variable"
  | .dataType => "DataType"
  | .parameterMapping => "ParameterMapping"
  | .graphObject => "GraphObject"
  | .interactObject => "InteractObject"
  | .moduleDef => "ModuleDef"
  | .sequence => "Sequence"
  | .equation => "Equation"
  | .moduleCode => "ModuleCode"
  | .moduleHeader => "ModuleHeader"
  | .singleModule => "SingleModule"
  | .frameModule => "FrameModule"
  | .typeInstance => "ModuleTypeInstance"
  | .typeDef => "ModuleTypeDef"
  | .basePicture => "BasePicture"
  | .codeBlocks => "SFCCodeBlocks"
  | .step => "SFCStep"
  | .transition => "SFCTransition"
  | .alternative => "SFCAlternative"
  | .parallel => "SFCParallel"
  | .subsequence => "SFCSubsequence"
  | .transitionSub => "SFCTransitionSub"
  | .fork => "SFCFork"
  | .stop => "SFCBreak"
  | .component => "ComponentInfo"

def ofName? (name : String) : Option Element :=
  all.find? fun kind => kind.name == name

/-- The elements that a sequence is made of. -/
def isNode : Element → Bool
  | .step | .transition | .alternative | .parallel | .subsequence | .transitionSub | .fork
  | .stop => true
  | _ => false

/-- The grid of a picture that states none. -/
def usualGrid : Double := Double.ofDecimal false 2 (-1)

/-- The fields of an element in their order, each with the value it has when it is not given. -/
def fields : Element → List (String × Value)
  | .variable => [("name", .null), ("datatype", .null), ("global_var", .bool false),
      ("const", .bool false), ("state", .bool false), ("opsave", .bool false),
      ("secure", .bool false), ("init_value", .null), ("description", .null),
      ("read", .bool false), ("written", .bool false), ("usage_locations", .list [])]
  | .dataType => [("name", .null), ("description", .null), ("datecode", .null),
      ("var_list", .list []), ("read", .bool false), ("written", .bool false),
      ("usage_locations", .list []), ("origin_file", .null), ("origin_lib", .null)]
  | .parameterMapping => [("target", .null), ("source_type", .null), ("is_duration", .null),
      ("is_source_global", .null), ("source", .null), ("source_literal", .null)]
  | .graphObject | .interactObject => [("type", .null), ("properties", .dict [] [])]
  | .moduleDef => [("clipping_bounds", .null), ("zoom_limits", .null), ("seq_layers", .null),
      ("grid", .real usualGrid), ("zoomable", .bool false), ("graph_objects", .list []),
      ("interact_objects", .list [])]
  | .sequence => [("name", .null), ("type", .null), ("position", .null), ("size", .null),
      ("seqcontrol", .bool false), ("seqtimer", .bool false), ("code", .list [])]
  | .equation => [("name", .null), ("position", .null), ("size", .null), ("code", .list [])]
  | .moduleCode => [("sequences", .null), ("equations", .null)]
  | .moduleHeader => [("name", .null), ("invoke_coord", .null), ("layer_info", .null),
      ("enable", .bool true), ("zoom_limits", .null), ("zoomable", .bool false),
      ("enable_tail", .null), ("groupconn", .null), ("groupconn_global", .bool false)]
  | .singleModule => [("header", .null), ("moduledef", .null), ("datecode", .null),
      ("moduleparameters", .list []), ("localvariables", .list []), ("submodules", .list []),
      ("modulecode", .null), ("parametermappings", .list [])]
  | .frameModule => [("header", .null), ("datecode", .null), ("submodules", .list []),
      ("moduledef", .null), ("modulecode", .null)]
  | .typeInstance => [("header", .null), ("moduletype_name", .null),
      ("parametermappings", .list [])]
  | .typeDef => [("name", .null), ("datecode", .null), ("moduleparameters", .list []),
      ("localvariables", .list []), ("submodules", .list []), ("moduledef", .null),
      ("modulecode", .null), ("parametermappings", .list []), ("groupconn", .null),
      ("groupconn_global", .bool false), ("origin_file", .null), ("origin_lib", .null)]
  | .basePicture => [("header", .null), ("name", .text "BasePicture"), ("position", .null),
      ("datatype_defs", .list []), ("moduletype_defs", .list []), ("localvariables", .list []),
      ("submodules", .list []), ("moduledef", .null), ("modulecode", .null),
      ("origin_file", .null), ("origin_lib", .null), ("parse_tree", .null)]
  | .codeBlocks => [("enter", .list []), ("active", .list []), ("exit", .list [])]
  | .step => [("kind", .null), ("name", .null), ("code", .null)]
  | .transition => [("name", .null), ("condition", .null)]
  | .alternative | .parallel => [("branches", .null)]
  | .subsequence | .transitionSub => [("name", .null), ("body", .null)]
  | .fork => [("target", .null)]
  | .stop => []
  | .component => [("name", .null), ("type", .null), ("ip_address", .null), ("slc", .null),
      ("units", .null), ("dependencies", .null)]

/-- How many of the fields, counted from the first, have to be given. -/
def required : Element → Nat
  | .moduleDef | .moduleCode | .codeBlocks | .stop => 0
  | .graphObject | .interactObject | .frameModule | .typeDef | .basePicture | .alternative
  | .parallel | .fork => 1
  | .variable | .moduleHeader | .singleModule | .typeInstance | .transition | .subsequence
  | .transitionSub => 2
  | .dataType | .equation | .step => 3
  | .parameterMapping | .sequence => 4
  | .component => 6

end Element

/-- What goes wrong when a value does not have the shape that an operation needs. -/
inductive Fault where
  /-- The value is of a kind that the operation does not take. -/
  | wrongType
  /-- The value has no such field. -/
  | missingMember
  /-- The value is of the right kind, but cannot be used. -/
  | badValue
  /-- There is no item at that place. -/
  | outOfRange
  /-- There is no entry under that name. -/
  | missingKey
  /-- A whole number beyond the range of the reals. -/
  | tooLarge
  deriving DecidableEq, Repr

namespace Value

def kindName : Value → String
  | .null => "NoneType"
  | .bool _ => "bool"
  | .int _ => "int"
  | .real _ => "float"
  | .text _ => "str"
  | .moment m => m.kindName
  | .token _ _ => "Token"
  | .list _ => "list"
  | .tuple _ => "tuple"
  | .dict _ _ => "dict"
  | .tree _ _ _ => "Tree"
  | .simpleType _ => "Simple_DataType"
  | .typeDefault => "object"
  | .element kind _ => kind.name

def isNull : Value → Bool
  | .null => true
  | _ => false

def isToken : Value → Bool
  | .token _ _ => true
  | _ => false

def isTuple : Value → Bool
  | .tuple _ => true
  | _ => false

/-- The characters of a text or a lexeme. -/
def text? : Value → Option String
  | .text s => some s
  | .token _ s => some s
  | _ => none

def isText (v : Value) : Bool :=
  v.text?.isSome

/-- Truth values count as the whole numbers zero and one. -/
def int? : Value → Option Int
  | .int n => some n
  | .bool b => some (if b then 1 else 0)
  | _ => none

def isNumber : Value → Bool
  | .int _ | .bool _ | .real _ => true
  | _ => false

/-- The real number that a number stands for. -/
def toDouble : Value → Except Fault Double
  | .real x => .ok x
  | .int n => match Double.ofInt? n with
    | some x => .ok x
    | none => .error .tooLarge
  | .bool b => .ok (Double.ofRatio false (if b then 1 else 0) 1)
  | _ => .error .wrongType

/-- Empty and zero values do not hold; all others do. -/
def holds : Value → Bool
  | .null => false
  | .bool b => b
  | .int n => n != 0
  | .real x => !x.isZero
  | .text s | .token _ s => s != ""
  | .list items | .tuple items => !items.isEmpty
  | .dict keys _ => !keys.isEmpty
  | _ => true

def get? : Value → String → Option Value
  | .dict keys values, name =>
    ((keys.zip values).find? fun (key, _) => key.text? == some name).map Prod.snd
  | _, _ => none

def hasKey (v : Value) (name : String) : Bool :=
  (v.get? name).isSome

def getOrNull (v : Value) (name : String) : Value :=
  (v.get? name).getD .null

def ofEntries (entries : List (String × Value)) : Value :=
  .dict (entries.map fun (name, _) => .text name) (entries.map Prod.snd)

/-- The value beside a key of two parallel lists is replaced, or entered with its key at the
end. -/
def putIn (isKey : α → Bool) (key : α) (value : Value) : List α → List Value → List α × List Value
  | k :: keys, v :: values =>
    if isKey k then (k :: keys, value :: values)
    else
      let (keys, values) := putIn isKey key value keys values
      (k :: keys, v :: values)
  | keys, values => (keys ++ [key], values ++ [value])

/-- The dictionary with the entry replaced, or entered at the end. -/
def put (v : Value) (name : String) (value : Value) : Value :=
  match v with
  | .dict keys values =>
    let (keys, values) := putIn (·.text? == some name) (.text name) value keys values
    .dict keys values
  | v => v

def letters (s : String) : List Value :=
  s.toList.map fun c => .text (String.singleton c)

/-- What is met when one goes through a value: the items of a list or a tuple, the characters of
a text, the keys of a dictionary. -/
def elements : Value → Except Fault (List Value)
  | .list items | .tuple items => .ok items
  | .dict keys _ => .ok keys
  | .text s | .token _ s => .ok (letters s)
  | _ => .error .wrongType

/-- The two elements of a value that has two. -/
def halves (v : Value) : Except Fault (Value × Value) := do
  match ← v.elements with
  | [first, second] => return (first, second)
  | _ => .error .badValue

def field? : Value → String → Option Value
  | .element kind fields, name => ((kind.fields.map Prod.fst).zip fields).lookup name
  | _, _ => none

def field (v : Value) (name : String) : Except Fault Value :=
  match v.field? name with
  | some x => .ok x
  | none => .error .missingMember

/-- A name that has to be a text. -/
def name (v : Value) : Except Fault String :=
  match v.text? with
  | some s => .ok s
  | none => .error .missingMember

def entry (v : Value) (name : String) : Except Fault Value :=
  match v with
  | .dict keys values =>
    match (Value.dict keys values).get? name with
    | some x => .ok x
    | none => .error .missingKey
  | _ => .error .wrongType

def setField (v : Value) (name : String) (value : Value) : Value :=
  match v with
  | .element kind fields =>
    let (_, fields) := putIn (· == name) name value (kind.fields.map Prod.fst) fields
    .element kind fields
  | v => v

def isElement (kind : Element) : Value → Bool
  | .element k _ => k == kind
  | _ => false

/-- Modules that may stand below another module. -/
def isModule (v : Value) : Bool :=
  v.isElement .singleModule || v.isElement .frameModule || v.isElement .typeInstance

def treeChildren? (label : String) : Value → Option (List Value)
  | .tree l _ children => if l == label then some children else none
  | _ => none

def children? : Value → Option (List Value)
  | .tree _ _ children => some children
  | _ => none

/-- A pair of tuples, as the corners of an area are written. -/
def isTuplePair : Value → Bool
  | .tuple [a, b] => a.isTuple && b.isTuple
  | _ => false

/-- The data type of a variable as it is kept: simple types by their kind, records by name. -/
def dataTypeOf? : Value → Option Value
  | .simpleType type => some (.simpleType type)
  | .text s => some (match SimpleType.ofName? s with
    | some type => .simpleType type
    | none => .text s)
  | .token kind s => some (match SimpleType.ofName? s with
    | some type => .simpleType type
    | none => .token kind s)
  | _ => none

/-- An element from the fields that are given; the others have their usual values. -/
def ofFields (kind : Element) (given : List (String × Value)) : Value :=
  .element kind <| kind.fields.map fun (name, usual) => (given.lookup name).getD usual

end Value

end SattLine
