import SattLine.Document.Block
import SattLine.Value.Shown

/-!
The design document of a program: its record types, module types, variables, modules, graphics
and code, block by block.
-/

namespace SattLine.Document

/-- Blocks, or what keeps them from being written. -/
abbrev Blocks := Except Fault (List Block)

def inOrder : List Blocks → Blocks
  | [] => .ok []
  | first :: rest => do
    let first ← first
    let rest ← inOrder rest
    return first ++ rest

def one (block : Except Fault Block) : Blocks := do
  return [← block]

/-- A part of the document that is left out when a value is empty. -/
def whenFilled (v : Value) (blocks : List Blocks) : Blocks :=
  if v.holds then inOrder blocks else .ok []

/-- A number with six significant digits. Words are of the wrong kind only by their value. -/
def coordinate : Value → Except Fault String
  | .text _ | .token _ _ | .simpleType _ => .error .badValue
  | v => do return (← v.toDouble).general 6

/-- A place, a size or the like: numbers in parentheses. -/
def coordinates : Value → Except Fault String
  | .null => .ok "<none>"
  | v => do return "(" ++ ", ".intercalate (← (← v.elements).mapM coordinate) ++ ")"

/-- A line that names a value. -/
def labelled (label : String) (v : Value) : Except Fault Block := do
  plain (label ++ (← v.shown))

def valueTable (headings : List String) (rows : List (List Value)) (widths : List Nat) :
    Except Fault Block := do
  table headings (← rows.mapM fun row => row.mapM Value.shown) widths

def variableRow (v : Value) : Except Fault (List Value) := do
  let parts ← ["name", "datatype", "global_var", "const", "state", "init_value"].mapM v.field
  let description ← v.field "description"
  return parts ++ [if description.holds then description else .text ""]

def variableTable (vs : Value) : Except Fault Block := do
  valueTable ["Name", "Datatype", "Global", "Const", "State", "Init", "Description"]
    (← (← vs.elements).mapM variableRow) [2, 1, 1, 1, 1, 1, 2]

def mappingRow (v : Value) : Except Fault (List Value) := do
  let target ← match ← v.field "target" with
    | .dict keys values => pure ((Value.dict keys values).getOrNull "var_name")
    | target => do pure (.text (← target.shown))
  let source ← match ← v.field "source" with
    | .dict keys values => pure ((Value.dict keys values).getOrNull "var_name")
    | _ => do pure (.text (← v.field "source_literal").literal)
  let kinds ← ["source_type", "is_source_global", "is_duration"].mapM v.field
  return [target] ++ kinds ++ [source]

def mappingTable (ms : Value) : Except Fault Block := do
  valueTable ["Target", "Source Type", "Is Global", "Is Duration", "Source / Literal"]
    (← (← ms.elements).mapM mappingRow) [2, 2, 1, 1, 2]

def settings (margin : String) (v : Value) : Blocks :=
  inOrder <| [("ClippingBounds : ", "clipping_bounds"), ("ZoomLimits     : ", "zoom_limits"),
      ("SeqLayers      : ", "seq_layers"), ("Grid           : ", "grid"),
      ("Zoomable       : ", "zoomable")].map fun (label, name) => one do
    labelled (margin ++ label) (← v.field name)

def statement (margin : String) (v : Value) : Except Fault Block := do
  plain (margin ++ "    " ++ (← (← v.formed "    ").shown))

def sizeText (v : Value) : Except Fault String := do
  if v.holds then return " size " ++ (← v.shown) else return ""

def sequence (margin : String) (v : Value) : Blocks := do
  let title := margin ++ "Sequence '" ++ (← (← v.field "name").shown) ++ "' at " ++
    (← coordinates (← v.field "position")) ++ (← sizeText (← v.field "size")) ++ " (type=" ++
    (← (← v.field "type").shown) ++ ")"
  let top ← heading 5 title
  let code ← v.field "code"
  if !code.holds then return [top]
  let caption ← bold (margin ++ "Enter:")
  let statements ← (← code.elements).mapM (statement margin)
  return top :: caption :: statements

def equation (margin : String) (v : Value) : Blocks := do
  let title := margin ++ "EquationBlock name='" ++ (← (← v.field "name").shown) ++ "' at " ++
    (← coordinates (← v.field "position")) ++ (← sizeText (← v.field "size"))
  let top ← heading 5 title
  let statements ← (← (← v.field "code").elements).mapM (statement margin)
  return top :: statements

/-- One list of the code of a module, under a heading. -/
def codePart (margin title : String) (v : Value) (block : String → Value → Blocks) : Blocks :=
  whenFilled v [one (heading 4 (margin ++ title)),
    do inOrder ((← v.elements).map (block (margin ++ "    ")))]

def code (margin : String) (v : Value) : Blocks := do
  let sequences ← codePart margin "Sequences" (← v.field "sequences") sequence
  let equations ← codePart margin "Equations" (← v.field "equations") equation
  return sequences ++ equations

/-- Graphics and code, each under a caption if it is there. -/
def graphicsAndCode (margin : String) (suffix : String) (definition statements : Value) : Blocks :=
  inOrder [
    whenFilled definition [
      one (bold (margin ++ "ModuleDef" ++ suffix)), settings margin definition],
    whenFilled statements [
      one (bold (margin ++ "ModuleCode" ++ suffix)), code margin statements]]

/-- The kind of a value, as it is written for one that is no module. -/
def kindText (v : Value) : String :=
  match v with
  | .token _ _ => "<class 'lark.lexer.Token'>"
  | .tree _ _ _ => "<class 'lark.tree.Tree'>"
  | .simpleType _ => "<enum 'Simple_DataType'>"
  | .element .component _ => "<class 'sattlint.docgenerator.configgen.ComponentInfo'>"
  | .element kind _ => "<class 'sattlint.models.ast_model." ++ kind.name ++ "'>"
  | v => "<class '" ++ v.kindName ++ "'>"

/-- The line for a value in the place of a module that is none. -/
def unknown (margin : String) (v : Value) : Blocks :=
  one (plain (margin ++ "<Unknown instance type: " ++ kindText v ++ ">"))

/-- The heading and first lines of a module. -/
def invocation (margin kind : String) (header : Value) (pad : String) : Blocks :=
  inOrder [one do heading 3 (margin ++ kind ++ " – " ++ (← (← header.field "name").shown)),
    one do labelled (margin ++ "Enable       " ++ pad ++ ": ") (← header.field "enable"),
    one do plain (margin ++ "Invoke_coord " ++ pad ++ ": " ++
      (← coordinates (← header.field "invoke_coord")))]

def mappings (margin : String) (ms : Value) : Blocks :=
  whenFilled ms [one (bold (margin ++ "Parameter Mappings :")), one (mappingTable ms)]

def captionedVariables (caption : String) (vs : Value) : Blocks :=
  whenFilled vs [one (bold caption), one (variableTable vs)]

def marginAt (depth : Nat) : String :=
  String.join (List.replicate depth "    ")

mutual

/-- A module and the modules below it, indented by their depth. -/
def moduleBlocks (depth : Nat) : Value → Blocks
  | .element .frameModule [header, dateCode, submodules, definition, code] =>
    let margin := marginAt depth
    inOrder [
      invocation margin "FrameModule" header "",
      one (labelled (margin ++ "Datecode     : ") dateCode),
      whenFilled submodules [one (bold (margin ++ "Sub‑modules :")),
        modulesIn (depth + 1) submodules],
      graphicsAndCode margin " :" definition code]
  | .element .singleModule [header, definition, dateCode, parameters, locals, submodules, code,
      connections] =>
    let margin := marginAt depth
    inOrder [
      invocation margin "SingleModule" header "",
      one (labelled (margin ++ "Datecode     : ") dateCode),
      captionedVariables (margin ++ "Parameters :") parameters,
      captionedVariables (margin ++ "Local variables :") locals,
      whenFilled submodules [one (bold (margin ++ "Sub‑modules :")),
        modulesIn (depth + 1) submodules],
      mappings margin connections,
      graphicsAndCode margin " :" definition code]
  | .element .typeInstance [header, typeName, connections] =>
    let margin := marginAt depth
    inOrder [
      invocation margin "ModuleTypeInstance" header "   ",
      one (labelled (margin ++ "ModuleTypeName  : ") typeName),
      mappings margin connections]
  | v => unknown (marginAt depth) v

def modulesIn (depth : Nat) : Value → Blocks
  | .list ms | .tuple ms | .dict ms _ => modulesBlocks depth ms
  | v => do inOrder ((← v.elements).map (unknown (marginAt depth)))

def modulesBlocks (depth : Nat) : List Value → Blocks
  | [] => .ok []
  | m :: rest => do
    let first ← moduleBlocks depth m
    let others ← modulesBlocks depth rest
    return first ++ others

end

def record (v : Value) : Blocks := do
  let top ← heading 3 ("Datatype – " ++ (← (← v.field "name").shown))
  let description ← labelled "Description : " (← v.field "description")
  let dateCode ← labelled "Datecode    : " (← v.field "datecode")
  let fields ← v.field "var_list"
  let fields ← whenFilled fields [one (variableTable fields)]
  return [top, description, dateCode] ++ fields

def typeDef (v : Value) : Blocks := do
  let part (name : String) (blocks : Value → Blocks) : Blocks := do blocks (← v.field name)
  inOrder [
    part "name" fun name => one do heading 3 ("ModuleTypeDef – " ++ (← name.shown)),
    part "datecode" fun dateCode => one (labelled "Datecode : " dateCode),
    part "moduleparameters" (captionedVariables "Parameters:"),
    part "localvariables" (captionedVariables "Local variables:"),
    part "submodules" fun ms => whenFilled ms [one (bold "Sub‑modules:"), modulesIn 1 ms],
    part "moduledef" fun definition => graphicsAndCode "" ":" definition .null,
    part "modulecode" fun code => graphicsAndCode "" ":" .null code]

/-- The items of a list under a heading of the second level. -/
def subdivision (title : String) (items : Value) (block : Value → Blocks) : Blocks :=
  whenFilled items [one (heading 2 title), do inOrder ((← items.elements).map block)]

/-- The design document of the program that a picture describes. -/
def design (picture : Value) : Blocks := do
  let part (name : String) (blocks : Value → Blocks) : Blocks := do
    blocks (← picture.field name)
  let name ← (← picture.field "name").shown
  inOrder [
    one (heading 0 "Design Documentation"),
    one (plain ("Generated from Sattline AST – " ++ name)),
    .ok [pageBreak],
    one (heading 1 "BasePicture"),
    one (plain ("Name       : " ++ name)),
    part "position" fun place => one do plain ("Position   : " ++ (← coordinates place)),
    one (plain ""),
    part "datatype_defs" fun records =>
      subdivision "Datatype definitions (records)" records record,
    part "moduletype_defs" fun types => subdivision "Module type definitions" types typeDef,
    part "localvariables" fun vs => whenFilled vs
      [one (heading 2 "Local variables (BasePicture)"), one (variableTable vs)],
    part "submodules" fun ms => whenFilled ms
      [one (heading 2 "Sub‑modules (instances)"), modulesIn 0 ms],
    part "moduledef" fun definition => whenFilled definition
      [one (heading 2 "ModuleDef (graphical settings)"), settings "" definition],
    part "modulecode" fun statements => whenFilled statements
      [one (heading 2 "ModuleCode (logic)"), code "" statements]]

end SattLine.Document
