import SattLine.Build.Select

/-!
Declarations: references to variables, variables and their groups, records, parameter
mappings and scan groups.
-/

namespace SattLine.Build

/-- The parts of a reference; names and points are kept, colons are not. -/
def referencePart : Value → String
  | .token "name" s => s
  | .token "DOT" _ => "."
  | .token _ _ => ""
  | .text s => if s == ":" then "" else s
  | _ => ""

/-- Which of the two values of a state variable a reference means. -/
def referenceState? : Value → Option String
  | .token "New" _ => some "new"
  | .token "Old" _ => some "old"
  | _ => none

/-- A reference to a variable: its dotted name and the chosen state. -/
def reference (name : String) (state : Value) : Value :=
  Value.ofEntries [("var_name", .text name), ("state", state)]

variable (items : List Value)

def variableName : Value :=
  let state := match (items.filterMap referenceState?).getLast? with
    | some s => Value.text s
    | none => .null
  reference (String.join (items.map referencePart)) state

def scanGroup : Value :=
  let isGlobal := items.any fun v => match v with
    | .bool b => b
    | _ => false
  Value.ofEntries [("groupconn", lastOrNull (fun v => v.hasKey "var_name") items),
    ("global", .bool isGlobal)]

def variableItem : Result Value := do
  let name ← itemAt items 0
  let description := match items[1]? with
    | some v => if v.isText then v else .null
    | none => .null
  return .tuple [name, description]

structure Modifiers where
  const : Bool := false
  state : Bool := false
  opsave : Bool := false
  secure : Bool := false

def Modifiers.add? (m : Modifiers) (v : Value) : Option Modifiers :=
  match v.text? with
  | some "Const" => some { m with const := true }
  | some "State" => some { m with state := true }
  | some "OpSave" => some { m with opsave := true }
  | some "Secure" => some { m with secure := true }
  | _ => none

def readModifiers : Modifiers → List Value → Modifiers × List Value
  | m, [] => (m, [])
  | m, v :: rest =>
    match m.add? v with
    | some m => readModifiers m rest
    | none => (m, v :: rest)

/-- Splits off the flag of global variables. -/
def readGlobal : List Value → Bool × List Value
  | .bool true :: rest => (true, rest)
  | items => (false, items)

/-- The declared variables of a group: names with descriptions, then what they have in common. -/
def variableGroup : Result Value := do
  let items := items.filter fun v => !v.isNull
  let names := items.takeWhile Value.isTuple
  let (isGlobal, rest) := readGlobal (items.dropWhile Value.isTuple)
  if names.isEmpty then return .list []
  match rest with
  | [] => refuse .noDataType
  | type :: rest =>
    match type.text? with
    | none => refuse .noDataType
    | some type =>
      let (modifiers, rest) := readModifiers {} rest
      let init := match rest with
        | [] => .null
        | .typeDefault :: _ => .null
        | v :: _ => v
      let declared ← names.mapM fun item =>
        match item with
        | .tuple [name, description] =>
          variableOf [("name", name), ("datatype", .text type), ("global_var", .bool isGlobal),
            ("const", .bool modifiers.const), ("state", .bool modifiers.state),
            ("opsave", .bool modifiers.opsave), ("secure", .bool modifiers.secure),
            ("init_value", init), ("description", description)]
        | _ => .error (.fault .badValue)
      return .list declared

def variableList : Value :=
  .tree "var_list" false <| items.flatMap fun v =>
    match v with
    | .list declared => declared
    | _ => []

/-- The section of parameters or local variables. -/
def variableSection (label : String) (items : List Value) : Value :=
  .tree label false (lastChildren "var_list" items)

def record : Value :=
  let texts := items.filter Value.isText
  Value.ofFields .dataType [("name", orEmpty ((texts[0]?).getD .null)),
    ("description", (texts[1]?).getD .null), ("datecode", lastOrNull isInt items),
    ("var_list", .list ((lastChildren "var_list" items).filter (Value.isElement .variable)))]

/-- The target of a parameter mapping: a reference, a text, or the shown form of anything else. -/
def mappingTarget (v : Value) : Result Value :=
  match v with
  | .dict keys values => .ok (.dict keys values)
  | v => if v.isText then .ok v else do return .text (← v.shown)

/-- The source of a parameter mapping: its kind, the reference and the literal. -/
def mappingSource : List Value → Result (String × Value × Value)
  | [] => .ok ("value", .null, .null)
  | .dict keys values :: _ => .ok ("variable_name", .dict keys values, .null)
  | v :: _ =>
    if v.isNumber || v.isText then .ok ("value", .null, v)
    else do return ("value", .null, .text (← v.shown))

def parameterTransfer : Result Value := do
  match items with
  | [] => refuse .noTransfer
  | .null :: _ => refuse .noTransferTarget
  | target :: rest =>
    let target ← mappingTarget target
    let (isGlobal, rest) := match rest with
      | .bool b :: rest => (b, rest)
      | rest => (false, rest)
    let (isDuration, rest) := match rest with
      | .null :: rest => (true, rest)
      | rest => (false, rest)
    let (sourceType, source, literal) ← mappingSource rest
    return .element .parameterMapping [target, .text sourceType, .bool isDuration, .bool isGlobal,
      source, literal]

/-- The initial value is what stands last; there may be none. -/
def initialValue : Value :=
  (items.getLast?).getD .null

end SattLine.Build
