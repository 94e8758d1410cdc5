import SattLine.Value.Shown

/-!
Why the parts of a program cannot be put together, and the wording of each reason.
-/

namespace SattLine.Build

inductive Refusal where
  | noPicture (got : List Value)
  | noInvocation
  | noItems
  | noHeader
  | noTypeName
  | noDefinitionName
  | noTransfer
  | noTransferTarget
  | noDataType
  | coordinatesShort (found : Nat)
  | invocationShort (found : Nat)
  | pairsWrong (found : Nat)
  | noCoordinateTail
  | gridNotNumeric (got : Value)
  | gridEmpty (got : List Value)
  | noTextBefore (got : Value)
  | noText (got : List Value)
  | noGraphObject (got : List Value)
  | blockWithoutName
  | blockWithoutPosition
  | blockWithoutSize
  | noConnectedVariable (got : Value)
  | noEnableExpression (got : Value)
  | onlyTokens (rule : String) (got : Value)
  | noLayerLimit (got : List Value)
  | noStatement (got : List Value)
  | valueMissing
  | valueTooMany (count : Nat) (got : Value)
  | valueNull
  | dateCodeUnreadable (text : String)
  | noDateCode (got : List Value)
  | notADataType (got : Value)

/-- The kinds of the values that were found instead. -/
def kindsOf (got : List Value) : String :=
  ", ".intercalate (got.map Value.kindName)

/-- The kinds of values, lexemes with the name of their terminal. -/
def kindsWithTerminals (got : List Value) : String :=
  ", ".intercalate <| got.map fun v =>
    match v with
    | .token kind _ => "Token[" ++ kind ++ "]"
    | v => v.kindName

/-- A value within a message: a text stands for itself. -/
def written (v : Value) : String :=
  (v.text?).getD v.literal

namespace Refusal

/-- The same reason, told of the value in which the items were found. -/
def about (given : Value) : Refusal → Refusal
  | noConnectedVariable _ => noConnectedVariable given
  | noEnableExpression _ => noEnableExpression given
  | onlyTokens rule _ => onlyTokens rule given
  | valueTooMany count _ => valueTooMany count given
  | reason => reason

def message : Refusal → String
  | noPicture got => "start expected a BasePicture; got: " ++ kindsOf got
  | noInvocation => "module_header missing invoke_coord"
  | noItems => "No items in base_picture_module"
  | noHeader => "Missing module header"
  | noTypeName => "Missing module type name"
  | noDefinitionName => "Name cannont be none"
  | noTransfer => "moduletype_par_transfer received empty items"
  | noTransferTarget => "moduletype_par_transfer missing target variable_name"
  | noDataType => "Expected datatype NAME in variable_group"
  | coordinatesShort found => "coordinates missing REAL values (got " ++ toString found ++ ")"
  | invocationShort found => "invoke_coord expected 5 REALs, found " ++ toString found
  | pairsWrong found => "origo_size_pair expected 2 coordinate pairs, found " ++ toString found
  | noCoordinateTail => "coord_invar_tail expected connected variable or value"
  | gridNotNumeric got =>
    "grid expected a numeric value; got " ++ got.kindName ++ ": " ++ got.literal
  | gridEmpty got => "grid expected at least one numeric value; got: " ++ kindsOf got
  | noTextBefore got =>
    "_extract_text_from_node expected a str or a 'text_content' node; got " ++ got.kindName
  | noText got => "text_content expected a str; got: " ++ kindsOf got
  | noGraphObject got => "graph_object expected a GraphObject in items; got: " ++ kindsOf got
  | blockWithoutName => "Name can't be None"
  | blockWithoutPosition => "Position can't be None"
  | blockWithoutSize => "Size can't be None"
  | noConnectedVariable got =>
    "invar expected a connected_variable child; got: " ++ written got
  | noEnableExpression got =>
    "enable_expression expected an expression child; got: " ++ written got
  | onlyTokens rule got =>
    rule ++ " expected a non-Token child; got: " ++ written got
  | noLayerLimit got =>
    "two_layers expected a numeric REAL value; got: " ++ kindsWithTerminals got
  | noStatement got =>
    "statement expected a non-Token child (assignment_statement | function_call | " ++
      "if_statement); got only tokens: " ++ kindsOf got
  | valueMissing => "value expected one item (BOOL|REAL|STRING|SIGNED_INT); got empty list"
  | valueTooMany count got =>
    "value expected exactly one item; got " ++ toString count ++ ": " ++ got.literal
  | valueNull => "value item is None"
  | dateCodeUnreadable text => "Invalid SL_DATECODE value: " ++ Text.quoted text
  | noDateCode got =>
    "sl_datecode expected a Token(type=SL_DATECODE) or int; got: " ++ kindsOf got
  | notADataType got => "Expected Simple_DataType or str, got " ++ got.kindName

end Refusal

/-- A construction fails for a reason of its own or because a part has the wrong shape. -/
inductive Failure where
  | refused (reason : Refusal)
  | fault (fault : Fault)

abbrev Result := Except Failure

instance : MonadLift (Except Fault) Result where
  monadLift
    | .ok a => .ok a
    | .error f => .error (.fault f)

def refuse (reason : Refusal) : Result α :=
  .error (.refused reason)

/-- A result whose refusal is told of the value in which the items were found. -/
def Result.about (given : Value) : Result α → Result α
  | .error (.refused reason) => refuse (reason.about given)
  | result => result

/-- A variable whose data type is kept in its usual form. -/
def variableOf (fields : List (String × Value)) : Result Value :=
  let type := (fields.lookup "datatype").getD .null
  match type.dataTypeOf? with
  | some type => .ok ((Value.ofFields .variable fields).setField "datatype" type)
  | none => refuse (.notADataType type)

/-- Whether fields are those of an element and none that it needs is missing. -/
def areFields (kind : Element) (given : List String) : Bool :=
  let names := kind.fields.map Prod.fst
  given.all names.contains && (names.take kind.required).all given.contains

/-- An element from the fields that are given; of two with one name the later counts. -/
def elementOf (kind : Element) (given : List (String × Value)) : Result Value :=
  let fields := given.reverse
  if !areFields kind (fields.map Prod.fst) then .error (.fault .wrongType)
  else if kind == .variable then variableOf fields
  else .ok (Value.ofFields kind fields)

end SattLine.Build
