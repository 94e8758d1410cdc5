import SattLine.Value.Layout

/-!
The shown form of values: what a reader of a report sees. Program elements are shown with their
main fields one below the other; statements and expressions are shown in the notation of the
language.
-/

namespace SattLine.Value

/-- A formatted expression. A reference gives the stored name as it is, whatever its kind, and
with it the shown form of that name. -/
structure Formed where
  value : Value
  shown : Except Fault String

namespace Formed

def ofText (s : String) : Formed := ⟨.text s, .ok s⟩

/-- The text of a formatted expression; `fault` where it is not a text. -/
def textOr (fault : Fault) (f : Formed) : Except Fault String :=
  match f.value.text? with
  | some s => .ok s
  | none => .error fault

/-- Formatted expressions, all of them texts, with a separator between them. -/
def joined (separator : String) (parts : List Formed) : Except Fault String := do
  let texts ← parts.mapM (textOr .wrongType)
  return separator.intercalate texts

end Formed

def characters : Value → Except Fault (List String)
  | .text s | .token _ s => .ok (s.toList.map String.singleton)
  | _ => .error .wrongType

/-- The two characters of a text that has two. -/
def twoCharacters : Value → Except Fault (String × String)
  | .list _ | .tuple _ | .dict _ _ => .error .badValue
  | v => do
    match ← characters v with
    | [first, second] => return (first, second)
    | _ => .error .badValue

/-- The pairs in a text: there are none, since one character is no pair. -/
def pairsOfText (v : Value) : Except Fault (List α) := do
  if (← characters v).isEmpty then return [] else .error .badValue

/-- The shown form of a value that is not an element. -/
def plain : Value → String
  | .text s => s
  | .token _ s => s
  | .moment m => m.text
  | .simpleType type => literalOfSimple type
  | v => v.literal

def margin : String := "    "

def margins (unit : String) (count : Nat) : String :=
  String.join (List.replicate count unit)

/-- Lines between a heading with an opening brace and the closing brace. -/
def braced (heading : String) (lines : List String) : String :=
  heading ++ "\x7b\n" ++ Text.indent margin ("\n".intercalate lines) ++ "\x7d"

/-- A field under each caption. The colons stand below each other. -/
def fielded (width : Nat) (fields : List (String × String)) : List String :=
  fields.map fun (caption, shown) => Text.padRight width caption ++ ": " ++ shown

/-- The lines of a block of a sequence between its name and its end. -/
def ended (kind heading : String) (lines : List String) : List String :=
  (kind ++ heading ++ ":") :: lines ++ ["End" ++ kind]

def bracketed (unit : String) (shown : List String) : String :=
  "[\n" ++ "\n".intercalate (shown.map (Text.indent unit)) ++ "]"

/-- The captions of the columns of a table of variables, each with what follows the column. -/
def columnCaptions : List (String × String) :=
  [("Name: ", " , "), ("Datatype: ", ", "), ("Global: ", ", "), ("Const: ", ", "),
    ("State: ", ", "), ("Init_value : ", ", "), ("Description: ", "")]

def columnWidths (rows : List (List String)) : List Nat :=
  rows.foldl (fun widths row => List.zipWith max widths (row.map String.length))
    (List.replicate columnCaptions.length 0)

def variableTable (unit : String) (rows : List (List String)) : String :=
  let widths := columnWidths rows
  let line (row : List String) : String :=
    unit ++ String.join ((columnCaptions.zip (widths.zip row)).map
      fun ((caption, after), (width, cell)) => caption ++ Text.padRight width cell ++ after)
  "[\n" ++ "\n".intercalate (rows.map line) ++ "]"

def variableLine : List String → String
  | [name, type, isGlobal, const, state, init, description] =>
    "Name: " ++ name ++ ", Datatype: " ++ type ++ ", Global: " ++ isGlobal ++ ", Const: " ++
      const ++ ", State: " ++ state ++ ", Init_value : " ++ init ++ ", Description: " ++ description
  | _ => ""

/-- The lines of a branch below its heading. -/
def shifted (unit : String) (lines : List String) : List String :=
  (Text.lines ("\n".intercalate lines)).map (unit ++ ·)

def numbered (unit : String) (branches : List (List String)) : List String :=
  (branches.zipIdx 1).flatMap fun (lines, i) =>
    (unit ++ "Branch " ++ toString i ++ ":") :: shifted (margins unit 2) lines

/-- Numbered branches of a condition: the first begins with `IF`, the others with `ELSIF`. -/
def conditional (unit : String) (branches : List (String × List String))
    (otherwise : Option (List String)) : String :=
  let heads := "IF" :: List.replicate branches.length "ELSIF"
  let lines := (heads.zip branches).flatMap fun (head, condition, body) =>
    (head ++ " " ++ condition) :: "THEN" :: body.map (Text.indent unit)
  let last := match otherwise with
    | some body => "ELSE" :: body.map (Text.indent unit)
    | none => []
  "\n".intercalate (lines ++ last ++ ["ENDIF"])

def sizeNote (size : Value) (shown : Except Fault String) : Except Fault String :=
  if size.isNull then .ok "" else do return " with size " ++ (← shown)

/-- The items of a list between brackets, on one line if that is wanted and possible. -/
def layItems (unit : String) (inline : Bool) (parts : List String) : String :=
  if parts.isEmpty then "[]"
  else if inline && parts.all (fun s => !s.contains '\n') then listOf parts
  else bracketed unit parts

/-- A list of which all items are variables becomes a table if `align` holds. -/
def layList (unit : String) (align inline : Bool) (cells : Option (List (Except Fault (List String))))
    (parts : Except Fault (List String)) : Except Fault String :=
  match align, cells with
  | true, some (row :: rows) => do return variableTable unit (← (row :: rows).mapM id)
  | _, _ => do return layItems unit inline (← parts)

/-- Left operand, operators and right operands between parentheses. -/
def operation (left : Formed) (tail : List String) : Except Fault String := do
  return "(" ++ (← left.shown) ++ " " ++ " ".intercalate tail ++ ")"

/-- An operator with its right operand, behind what stands on its left. -/
def operated (left : Except Fault String) (op : Except Fault String)
    (right : Except Fault Formed) : Except Fault String := do
  let left ← left
  let op ← op
  let right ← (← right).shown
  return left ++ op ++ " " ++ right

/-- The left operand of each comparison in a chain. -/
def compared (left : Formed) : Except Fault String := do
  return (← left.shown) ++ " "

def layAction (unit caption : String) (statements : List String) : List String :=
  if statements.isEmpty then []
  else (unit ++ caption) :: statements.map (margins unit 2 ++ ·)

/-- The block of a sequence or equation with its code moved to the right. -/
def codeBlock (heading code : String) : String :=
  heading ++ "\n    Code:\n" ++ Text.indent "        " code

/-- A caption over blocks that are separated by empty lines. -/
def captioned (caption : String) (blocks : List String) : String :=
  Text.indent margin (caption ++ "\n" ++ Text.indent margin ("\n\n".intercalate blocks))

mutual

def shown : Value → Except Fault String
  | .element kind fields => shownElement kind fields
  | v => .ok v.plain

def shownAll : List Value → Except Fault (List String)
  | [] => .ok []
  | v :: rest => do
    let first ← shown v
    let others ← shownAll rest
    return first :: others

/-- The entry of a dictionary under a name, with its shown form. -/
def formedEntry (name : String) : List Value → List Value → Option Formed
  | key :: keys, v :: values =>
    if key.text? == some name then some ⟨v, shown v⟩ else formedEntry name keys values
  | _, _ => none

/-- The cells of a table of variables; `none` if some item is not a variable. -/
def variableCells : List Value → Option (List (Except Fault (List String)))
  | [] => some []
  | .element .variable [name, type, isGlobal, const, state, _, _, init, description, _, _, _] ::
      rest =>
    let cells : Except Fault (List String) := do
      let isGlobal ← shown isGlobal
      let const ← shown const
      let state ← shown state
      return [name.literal, type.literal, isGlobal, const, state, init.literal,
        description.literal]
    (variableCells rest).map (cells :: ·)
  | _ :: _ => none

def shownList (unit : String) (align inline : Bool) : Value → Except Fault String
  | .list items | .tuple items => layList unit align inline (variableCells items) (shownAll items)
  | .dict keys _ => layList unit align inline none (shownAll keys)
  | v => if v.holds then do return layItems unit inline (← characters v) else .ok "[]"

/-- An expression or statement in the notation of the language. -/
def formed (unit : String) : Value → Except Fault Formed
  | .tree "Statement" _ (child :: _) => formed unit child
  | .dict keys values =>
    match formedEntry "var_name" keys values with
    | some f => .ok f
    | none => .ok (.ofText (Value.dict keys values).literal)
  | .list items => do
    let parts ← formedAll unit items
    return .ofText (← Formed.joined "\n" parts)
  | .tuple [] => .error .outOfRange
  | .tuple (op :: operands) => formedOperation unit op operands
  | .element kind fields => do return .ofText (← shownElement kind fields)
  | .text s => .ok (.ofText (Text.quoted s))
  | .token kind s => .ok (.ofText (Value.token kind s).literal)
  | v => .ok (.ofText v.plain)

def formedAll (unit : String) : List Value → Except Fault (List Formed)
  | [] => .ok []
  | v :: rest => do
    let first ← formed unit v
    let others ← formedAll unit rest
    return first :: others

/-- The operands of an operator that stands first in a tuple. -/
def formedOperation (unit : String) (op : Value) : List Value → Except Fault Formed
  | [] =>
    match op.text? with
    | some "NOT" | some "AND" | some "OR" => .error .outOfRange
    | some "assign" | some "IF" | some "Ternary" | some "compare" | some "add" | some "mul"
    | some "FunctionCall" => .error .badValue
    | _ => .ok (.ofText (laidOut (.tuple [op])))
  | first :: rest =>
    match op.text?, rest with
    | some "NOT", _ => do
      let operand ← formed unit first
      return .ofText ("NOT(" ++ (← operand.textOr .wrongType) ++ ")")
    | some "AND", _ => do return .ofText (← Formed.joined " AND \n" (← formedItems unit first))
    | some "OR", _ => do return .ofText (← Formed.joined " OR \n" (← formedItems unit first))
    | some "assign", [value] => do
      let target ← assigned first
      let value ← formed unit value
      return .ofText ((← target.shown) ++ " = " ++ (← value.shown))
    | some "IF", [otherwise] => do
      let branches ← formedBranches unit true first
      let last ← if otherwise.holds then do
          pure (some (← formedBlock unit .missingMember otherwise))
        else pure none
      return .ofText (conditional unit branches last)
    | some "Ternary", [otherwise] => do
      let branches ← formedBranches unit false first
      let last ← match otherwise with
        | .null => pure none
        | v => do
          let f ← formed unit v
          pure (some [← f.textOr .missingMember])
      return .ofText (conditional unit branches last)
    | some "compare", [tail] => do
      let left ← formed unit first
      if tail.holds then
        return .ofText (" AND ".intercalate (← formedTail unit (compared left) tail))
      else return left
    | some "add", [tail] | some "mul", [tail] => do
      let left ← formed unit first
      return .ofText (← operation left (← formedTail unit (.ok "") tail))
    | some "FunctionCall", [arguments] => do
      let arguments ← if arguments.holds then formedItems unit arguments else pure []
      let arguments ← Formed.joined ", " arguments
      return .ofText ((← shown first) ++ "(" ++ arguments ++ ")")
    | some "assign", _ | some "IF", _ | some "Ternary", _ | some "compare", _ | some "add", _
    | some "mul", _ | some "FunctionCall", _ => .error .badValue
    | _, _ => .ok (.ofText (laidOut (.tuple (op :: first :: rest))))

def assigned : Value → Except Fault Formed
  | .dict keys values =>
    match formedEntry "var_name" keys values with
    | some f => .ok f
    | none => .ok (.ofText (Value.dict keys values).literal)
  | .element kind fields => do return .ofText (← shownElement kind fields)
  | v => .ok (.ofText v.plain)

def formedItems (unit : String) : Value → Except Fault (List Formed)
  | .list items | .tuple items | .dict items _ => formedAll unit items
  | v => do return (← characters v).map fun s => .ofText (Text.quoted s)

/-- The statements of a block, each formatted; `fault` where one does not give a text. -/
def formedBlock (unit : String) (fault : Fault) : Value → Except Fault (List String)
  | .list items | .tuple items | .dict items _ => formedBlockOf unit fault items
  | v => do return (← characters v).map Text.quoted

def formedBlockOf (unit : String) (fault : Fault) : List Value → Except Fault (List String)
  | [] => .ok []
  | v :: rest => do
    let first ← (← formed unit v).textOr fault
    let others ← formedBlockOf unit fault rest
    return first :: others

/-- The branches of a conditional: each is a condition with a block of a statement, or with an
expression. -/
def formedBranches (unit : String) (inBlocks : Bool) :
    Value → Except Fault (List (String × List String))
  | .list items | .tuple items | .dict items _ => formedBranchesOf unit inBlocks items
  | v => pairsOfText v

def formedBranchesOf (unit : String) (inBlocks : Bool) :
    List Value → Except Fault (List (String × List String))
  | [] => .ok []
  | .tuple [condition, body] :: rest | .list [condition, body] :: rest
  | .dict [condition, body] _ :: rest => do
    let condition ← (← formed unit condition).shown
    let body ← if inBlocks then formedBlock unit .missingMember body
      else do pure [← (← formed unit body).textOr .missingMember]
    let others ← formedBranchesOf unit inBlocks rest
    return (condition, body) :: others
  | v :: rest => do
    let (condition, body) ← twoCharacters v
    let others ← formedBranchesOf unit inBlocks rest
    return (Text.quoted condition, [Text.quoted body]) :: others

/-- The operators and right operands of an operation, each behind `left`. -/
def formedTail (unit : String) (left : Except Fault String) : Value → Except Fault (List String)
  | .list items | .tuple items | .dict items _ => formedTailOf unit left items
  | v => pairsOfText v

def formedTailOf (unit : String) (left : Except Fault String) :
    List Value → Except Fault (List String)
  | [] => .ok []
  | .tuple [op, right] :: rest | .list [op, right] :: rest | .dict [op, right] _ :: rest => do
    let first ← operated left (shown op) (formed unit right)
    let others ← formedTailOf unit left rest
    return first :: others
  | v :: rest => do
    let (op, right) ← twoCharacters v
    let first ← operated left (.ok op) (.ok (.ofText (Text.quoted right)))
    let others ← formedTailOf unit left rest
    return first :: others

def nodeLines (unit : String) : Value → Except Fault (List String)
  | .list nodes | .tuple nodes | .dict nodes _ => nodeLinesOf unit nodes
  | v => characters v

def nodeLinesOf (unit : String) : List Value → Except Fault (List String)
  | [] => .ok []
  | .element kind fields :: rest => do
    let first ← if kind.isNode then elementLines unit kind fields
      else do pure [← shownElement kind fields]
    let others ← nodeLinesOf unit rest
    return first ++ others
  | v :: rest => do
    let others ← nodeLinesOf unit rest
    return v.plain :: others

/-- The branches of an alternative or a parallel, each as its lines. -/
def branchLines (unit : String) : Value → Except Fault (List (List String))
  | .list branches | .tuple branches | .dict branches _ => branchLinesOf unit branches
  | v => do return (← characters v).map fun s => [s]

def branchLinesOf (unit : String) : List Value → Except Fault (List (List String))
  | [] => .ok []
  | branch :: rest => do
    let first ← nodeLines unit branch
    let others ← branchLinesOf unit rest
    return first :: others

/-- The lines of one action of a step, if it has statements. -/
def actionLines (unit caption : String) : Value → Except Fault (List String)
  | .list items | .tuple items | .dict items _ => do
    return layAction unit caption (← formedBlockOf unit .wrongType items)
  | v =>
    if v.holds then do return layAction unit caption ((← characters v).map Text.quoted)
    else .ok []

def elementLines (unit : String) : Element → List Value → Except Fault (List String)
  | .step, [kind, name, code] => do
    let heading := if kind.text? == some "init" then "InitStep " else "Step "
    let name ← shown name
    match code with
    | .element .codeBlocks [enter, active, exit] =>
      let enter ← actionLines unit "Enter:" enter
      let active ← actionLines unit "Active:" active
      let exit ← actionLines unit "Exit:" exit
      return (heading ++ name) :: enter ++ active ++ exit
    | _ => .error .missingMember
  | .transition, [name, condition] => do
    let name ← if name.holds then do pure (" " ++ (← shown name)) else pure ""
    let condition ← (← formed unit condition).shown
    return ["Transition" ++ name ++ " WAIT_FOR " ++ condition]
  | .alternative, [branches] => do
    let branches ← branchLines unit branches
    return ended "Alternative" "" (numbered unit branches)
  | .parallel, [branches] => do
    let branches ← branchLines unit branches
    return ended "Parallel" "" (numbered unit branches)
  | .subsequence, [name, body] => do
    let name ← shown name
    let body ← nodeLines unit body
    return ended "Subsequence" (" " ++ name) (shifted unit body)
  | .transitionSub, [name, body] => do
    let name ← shown name
    let body ← nodeLines unit body
    return ended "TransitionSub" (" " ++ name) (shifted unit body)
  | .fork, [target] => do return ["Fork to " ++ (← shown target)]
  | .stop, _ => .ok ["Break"]
  | kind, fields => .ok [elementOf kind (literals fields)]

def sequenceBlocks : Value → Except Fault (List String)
  | .list sequences | .tuple sequences | .dict sequences _ => sequenceBlocksOf sequences
  | v => do if (← characters v).isEmpty then return [] else .error .missingMember

def sequenceBlocksOf : List Value → Except Fault (List String)
  | [] => .ok []
  | .element .sequence [name, type, position, size, _, _, code] :: rest => do
    let size ← sizeNote size (shown size)
    let position ← shown position
    let type ← shown type
    let lines ← nodeLines margin code
    let others ← sequenceBlocksOf rest
    return codeBlock ("Sequence " ++ name.literal ++ " at " ++ position ++ size ++ " (type=" ++
      type ++ ")") ("\n".intercalate lines) :: others
  | _ :: _ => .error .missingMember

def equationBlocks : Value → Except Fault (List String)
  | .list equations | .tuple equations | .dict equations _ => equationBlocksOf equations
  | v => do if (← characters v).isEmpty then return [] else .error .missingMember

def equationBlocksOf : List Value → Except Fault (List String)
  | [] => .ok []
  | .element .equation [name, position, size, code] :: rest
  | .element .sequence [name, _, position, size, _, _, code] :: rest => do
    let code ← formedItems margin code
    let size ← sizeNote size (shown size)
    let position ← shown position
    let code ← Formed.joined "\n" code
    let others ← equationBlocksOf rest
    return codeBlock ("EquationBlock name=" ++ name.literal ++ " at " ++ position ++ size) code ::
      others
  | .element .step [_, _, code] :: _ => do
    let _ ← formedItems margin code
    .error .missingMember
  | _ :: _ => .error .missingMember

/-- The shown form of an element. The kinds that have none of their own are shown literally. -/
def shownElement : Element → List Value → Except Fault String
  | .variable, [name, type, isGlobal, const, state, _, _, init, description, _, _, _] => do
    let isGlobal ← shown isGlobal
    let const ← shown const
    let state ← shown state
    return variableLine [name.literal, type.literal, isGlobal, const, state, init.literal,
      description.literal]
  | .dataType, [name, description, datecode, declared, _, _, _, originFile, originLib] => do
    let declared ← shownList margin true false declared
    return braced "Datatype" (fielded 11 [("Name", name.literal),
      ("Description", description.literal), ("Datecode", datecode.literal),
      ("OriginFile", originFile.literal), ("OriginLib", originLib.literal),
      ("Variables in datatype   ", declared)])
  | .parameterMapping, [target, sourceType, _, isGlobal, source, literal] => do
    let target ← mapped target
    if isGlobal.holds then return (← target.shown) ++ " => GLOBAL"
    else if sourceType.text? == some "variable_name" && source.holds then
      let source ← mapped source
      return (← target.shown) ++ " => " ++ (← source.shown)
    else if literal.isNull then return (← target.shown) ++ " => <None>"
    else return (← target.shown) ++ " => " ++ literal.literal
  | .moduleDef, [bounds, zoomLimits, seqLayers, grid, zoomable, _, _] => do
    let bounds ← shown bounds
    let zoomLimits ← shown zoomLimits
    let seqLayers ← shown seqLayers
    let grid ← shown grid
    let zoomable ← shown zoomable
    return "\n" ++ Text.indent margin ("\n".intercalate (fielded 15 [("ClippingBounds", bounds),
      ("ZoomLimits", zoomLimits), ("SeqLayers", seqLayers), ("Grid", grid),
      ("Zoomable", zoomable)]))
  | .sequence, [name, type, position, _, control, timer, code] => do
    let name ← shown name
    let position ← shown position
    let type ← shown type
    let control ← shown control
    let timer ← shown timer
    let code ← shownList margin true false code
    return "Sequence(name=" ++ name ++ ", pos=" ++ position ++ ", type=" ++ type ++
      ", control=" ++ control ++ ", timer=" ++ timer ++ ",\n    code=" ++ code ++ ")"
  | .equation, [name, position, _, code] => do
    let name ← shown name
    let position ← shown position
    let code ← shownList margin true false code
    return "Equation(name=" ++ name ++ ", pos=" ++ position ++ ",\n    code=" ++ code ++ ")"
  | .moduleCode, [sequences, equations] => do
    let sequences ← if sequences.holds then sequenceBlocks sequences else pure ["No sequences"]
    let equations ← if equations.holds then equationBlocks equations else pure []
    return "ModuleCode\x7b\n" ++ captioned "Sequences:" sequences ++ "\n\n" ++
      captioned "Equations:" equations ++ "\n\x7d"
  | .singleModule, [.element .moduleHeader [name, coord, _, enable, _, _, _, _, _], _, datecode,
      parameters, declared, submodules, _, mappings] => do
    let enable ← shown enable
    let parameters ← shownList margin true false parameters
    let declared ← shownList margin true false declared
    let submodules ← shownList margin true false submodules
    let mappings ← shownList margin true false mappings
    return braced "SingleModule" (fielded 16 [("Name", name.literal), ("Enable", enable),
      ("Invoke_coord", coord.literal), ("Datecode", datecode.literal),
      ("Moduleparameters", parameters), ("Localvariables", declared), ("Submodules", submodules),
      ("ParameterMappings", mappings)])
  | .singleModule, _ => .error .missingMember
  | .frameModule, [.element .moduleHeader [name, coord, _, enable, _, _, _, _, _], datecode,
      submodules, _, _] => do
    let enable ← shown enable
    let submodules ← shownList margin true false submodules
    return braced "FrameModule" (fielded 13 [("Name", name.literal), ("Enable", enable),
      ("Invoke_coord", coord.literal), ("Datecode", datecode.literal),
      ("Submodules", submodules)])
  | .frameModule, _ => .error .missingMember
  | .typeInstance, [.element .moduleHeader [name, coord, _, enable, _, _, tail, _, _], typeName,
      mappings] => do
    let enable ← shown enable
    let tail ← shown tail
    let mappings ← shownList margin true false mappings
    return braced "ModuleTypeInstance" (fielded 17 [("Name", name.literal), ("Enable", enable),
      ("Enable_tail", tail), ("Invoke_coord", coord.literal), ("ModuleTypeName", typeName.literal),
      ("ParameterMappings", mappings)])
  | .typeInstance, _ => .error .missingMember
  | .typeDef, [name, datecode, parameters, declared, submodules, moduleDef, moduleCode, mappings,
      _, _, originFile, originLib] => do
    let parameters ← shownList margin true false parameters
    let declared ← shownList margin true false declared
    let submodules ← shownList margin true false submodules
    let moduleDef ← shown moduleDef
    let moduleCode ← shown moduleCode
    let mappings ← shownList margin true false mappings
    return braced "ModulType" (fielded 16 [("Name", name.literal), ("Datecode", datecode.literal),
      ("OriginFile", originFile.literal), ("OriginLib", originLib.literal),
      ("Moduleparameters", parameters), ("Localvariables", declared), ("Submodules", submodules),
      ("ModuleDef", moduleDef), ("ModuleCode", moduleCode), ("ParameterMappings", mappings)])
  | .basePicture, [_, name, position, dataTypes, moduleTypes, declared, submodules, moduleDef,
      moduleCode, _, _, _] => do
    let dataTypes ← shownList margin true false dataTypes
    let moduleTypes ← shownList margin true false moduleTypes
    let declared ← shownList margin true false declared
    let submodules ← shownList margin true false submodules
    let moduleDef ← shown moduleDef
    return braced "BasePicture" ["Name: " ++ name.literal ++ "\nPosition: " ++ position.literal ++
      "\n\nTYPEDEFINITIONS (Records): " ++ dataTypes ++ "\n\nTYPEDEFINITIONS (Modules): " ++
      moduleTypes ++ "\nLocalvariables: " ++ declared ++ "\n\nSubmodules: " ++ submodules ++
      "\n\nModuleDef: " ++ moduleDef ++ "\n\nModuleCode: " ++ moduleCode.literal ++ "\n\n"]
  | kind, fields => .ok (elementOf kind (literals fields))

/-- One side of a parameter mapping: the name of a reference, or the value itself. -/
def mapped : Value → Except Fault Formed
  | .dict keys values => .ok ((formedEntry "var_name" keys values).getD (.ofText "None"))
  | .element kind fields => do return .ofText (← shownElement kind fields)
  | v => .ok (.ofText v.plain)

end

/-- What is laid out with a unit of indentation. A unit that is no text will do where nothing is
indented. -/
def withUnit (unit : Value) (lay : String → Except Fault Value) : Except Fault Value :=
  match unit.text? with
  | some unit => lay unit
  | none => do
    let plain ← lay ""
    if plain.literal == (← lay " ").literal then return plain else throw .wrongType

/-- An expression or statement as it is reported. -/
def expression (unit : String) (v : Value) : Except Fault Value := do
  return (← formed unit v).value

def listText (align inline : Bool) (unit : String) (v : Value) : Except Fault Value := do
  return .text (← shownList unit align inline v)

def nodesText (unit : String) (v : Value) : Except Fault Value := do
  return .text ("\n".intercalate (← nodeLines unit v))

end SattLine.Value
