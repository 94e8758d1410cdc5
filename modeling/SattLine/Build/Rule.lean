import SattLine.Build.Code
import SattLine.Build.Declaration
import SattLine.Build.Lexeme
import SattLine.Build.Module
import SattLine.Build.Picture
import SattLine.Syntax.Parse

/-!
From syntax trees to programs. Every rule of the grammar that has a construction gives the
value it constructs from the values of its children; the other rules keep their trees.
-/

namespace SattLine.Build

def keep (label : String) (items : List Value) : Value :=
  .tree label false items

/-- The label of a node and what becomes of the values of its parts. -/
abbrev Construction := String × (List Value → Result Value)

/-- The base picture among the parts of a whole program. -/
def programOf (items : List Value) : Result Value :=
  match items.find? (Value.isElement .basePicture) with
  | some picture => .ok picture
  | none => refuse (.noPicture items)

/-- The constructions of places and of objects with texts. -/
def placeConstructions : List Construction := [
  ("coordinates", coordinates),
  ("invoke_coord", invokeCoord),
  ("text_object", textObject)]

/-- The constructions of types, variables and modules. -/
def moduleConstructions : List Construction := [
  ("start", programOf),
  ("record", fun items => .ok (record items)),
  ("datatype_typedefinitions", fun items =>
    .ok (keep "datatype_list" (items.filter (Value.isElement .dataType)))),
  ("module_body", fun items => .ok (keep "module_body" items)),
  ("base_module_body", fun items => .ok (keep "base_module_body" items)),
  ("argument", fun items => .ok (firstOrNull (fun v => !v.isToken) items)),
  ("arguments", fun items => .ok (keep "arguments" (withoutTokens items))),
  ("module_header", moduleHeader),
  ("base_picture_module", basePicture),
  ("invocation_new_module", newModule),
  ("frame_module", fun _ => .ok (.bool true)),
  ("invocation_module_type", typeInstance),
  ("variable_name", fun items => .ok (variableName items)),
  ("moduletype_definition", typeDefinition),
  ("moduletype_definitions", fun items => .ok (typeDefinitions items)),
  ("moduletype_par_transfer", parameterTransfer),
  ("moduletype_par_list", fun items =>
    .ok (keep "moduletype_par_list" (items.filter (Value.isElement .parameterMapping)))),
  ("invocation_tail", fun items =>
    .ok (firstOrNull (fun v => (v.treeChildren? "moduletype_par_list").isSome) items)),
  ("scan_group", fun items => .ok (scanGroup items)),
  ("variable_item", variableItem),
  ("opt_var_init", fun items => .ok (initialValue items)),
  ("variable_group", variableGroup),
  ("variable_list", fun items => .ok (variableList items)),
  ("moduleparameters", fun items => .ok (variableSection "MODULEPARAMETERS" items)),
  ("localvariables", fun items => .ok (variableSection "LOCALVARIABLES" items)),
  ("submodules", fun items => .ok (submodules items)),
  ("sl_datecode", fun items => dateCode items items)]

/-- The other constructions of pictures and of their objects. -/
def pictureConstructions : List Construction := [
  ("origo_coord", fun items => .ok (.list items)),
  ("size", fun items => .ok (.list items)),
  ("origo_size_pair", origoSizePair),
  ("coord_invar_tail", firstValue (fun _ => .noCoordinateTail)),
  ("coord_clippingbounds", fun items => .ok (keep "ClippingBounds" items)),
  ("clippingbounds", lastItem),
  ("seq_layers", fun items => do return Value.ofEntries [("seq_layers", ← lastItem items)]),
  ("zoomlimits", zoomLimits),
  ("grid", grid),
  ("moduledef_opts_seq", moduleOptions),
  ("moduledef", moduleDef),
  ("text_content", textContent),
  ("rectangle_object", fun items => .ok (areaObject "RectangleObject" items)),
  ("line_object", fun items => .ok (areaObject "LineObject" items)),
  ("oval_object", fun items => .ok (areaObject "OvalObject" items)),
  ("polygon_object", fun items => .ok (plainObject "PolygonObject" items)),
  ("segment_object", fun items => .ok (areaObject "SegmentObject" items)),
  ("composite_object", fun items => .ok (plainObject "CompositeObject" items)),
  ("graph_object", graphObject),
  ("graph_objects", fun items => .ok (.list (items.filter (Value.isElement .graphObject)))),
  ("interact_objects", fun items => .ok (interactObjects items)),
  ("combutproc_item", fun items => .ok (procedureButton items)),
  ("procedure_call", fun items => .ok (procedureCall items)),
  ("invar", firstValue (.noConnectedVariable ∘ .list)),
  ("enable", fun items => .ok (enabling items)),
  ("enable_expression", firstValue (.noEnableExpression ∘ .list)),
  ("interact_simple_item", fun items => .ok (simpleInteraction items)),
  ("interact_assign_variable", fun items => .ok (interactAssignment items)),
  ("interact_flag", fun items => .ok (interactFlag items)),
  ("interact_value_line", fun items => .ok (.list items)),
  ("layer_info", layerInfo),
  ("two_layers", layerLimit),
  ("connected_variable", firstValue (.onlyTokens "connected_variable" ∘ .list)),
  ("invar_tail", firstValue (.onlyTokens "invar_tail" ∘ .list))]

/-- The constructions of code. -/
def codeConstructions : List Construction := [
  ("modulecode", fun items => .ok (moduleCode items)),
  ("entercode", fun items => .ok (action "enter" items)),
  ("activecode", fun items => .ok (action "active" items)),
  ("exitcode", fun items => .ok (action "exit" items)),
  ("code_blocks", codeBlocks),
  ("seqinitstep", fun items => .ok (step "init" items)),
  ("seqstep", fun items => .ok (step "step" items)),
  ("seqtransition", fun items => .ok (transition items)),
  ("seqtransitionsub", fun items => .ok (nested .transitionSub items)),
  ("seqsub", fun items => .ok (nested .subsequence items)),
  ("seqalternative", fun items => .ok (branches .alternative items)),
  ("seqparallel", fun items => .ok (branches .parallel items)),
  ("seqfork", fun items => .ok (fork items)),
  ("seqbreak", fun _ => .ok (.element .stop [])),
  ("seq_element", fun items => .ok ((items.head?).getD .null)),
  ("sequence_body", fun items => .ok (keep "sequence_body" items)),
  ("sequence", sequence),
  ("equationblock", equationBlock),
  ("seq_control_opt", fun items => .ok (keep "seq_control_opt" (items.filter Value.isToken))),
  ("codeblock_coord", placeOf),
  ("objsizedef", placeOf),
  ("or_expression", fun items => .ok (chain "OR" items)),
  ("and_expression", fun items => .ok (chain "AND" items)),
  ("not_expression", fun items => .ok (negation items)),
  ("compare", comparison),
  ("additive_expression", arithmetic "add"),
  ("multiplicative_expression", arithmetic "mul"),
  ("unary_expression", signed),
  ("function_call", fun items => .ok (functionCall items)),
  ("argument_list", fun items => .ok (.list (withoutTokens items))),
  ("ternary_if", conditionalExpression),
  ("assignment_statement", assignment),
  ("if_statement", conditionalStatement),
  ("statement", statement),
  ("value", literal)]

def constructions : List Construction :=
  moduleConstructions ++ (placeConstructions ++ pictureConstructions ++ codeConstructions)

/-- What a rule constructs from the values of its children. -/
def rule? (rule : String) (items : List Value) : Option (Result Value) :=
  (constructions.lookup rule).map (· items)

/-- Rules that take an empty value of any kind for no items at all. -/
def takesNothing (rule : String) : Bool :=
  ["base_picture_module", "moduletype_par_transfer", "opt_var_init", "not_expression",
    "value"].contains rule

/-- Rules that take their items by place. -/
def takesPlaces (rule : String) : Bool :=
  takesNothing rule || ["clippingbounds", "seq_layers", "zoomlimits", "variable_item", "compare",
    "additive_expression", "multiplicative_expression"].contains rule

/-- Whether a rule gets along with the keys of a dictionary as its items: there are no places in
a dictionary, but it can be counted and its keys can be taken apart. -/
def takesKeys (rule : String) (count : Nat) : Bool :=
  match rule with
  | "unary_expression" | "value" => count != 1
  | "assignment_statement" => count == 2
  | "ternary_if" | "if_statement" => count == 0
  | rule => !takesPlaces rule || takesNothing rule && count == 0

/-- The items that a rule finds in a value. -/
def itemsFor (rule : String) (given : Value) : Except Fault (List Value) :=
  match given with
  | .dict keys _ => if takesKeys rule keys.length then .ok keys else .error .missingKey
  | v => if takesNothing rule && !v.holds then .ok [] else v.elements

/-- What a rule constructs from any value. -/
def ruleOn? (rule : String) (given : Value) : Option (Result Value) :=
  match rule with
  | "origo_coord" | "size" => some (.ok given)
  | "frame_module" | "seqbreak" => rule? rule []
  | rule =>
    match itemsFor rule given with
    | .ok items => (rule? rule items).map (Result.about given)
    | .error fault => (rule? rule []).map fun _ => .error (.fault fault)

/-- What a terminal makes of any value: its shown form serves as the text of the lexeme. -/
def lexemeOn? (kind : String) (given : Value) : Option (Result Value) :=
  match given.shown with
  | .ok text => lexemeValue? kind text
  | .error fault => (lexemeValue? kind "").map fun result =>
    if ["NAME", "STRING", "STRING_CRLF", "SIGNED_INT", "REAL", "BOOL"].contains kind then
      .error (.fault fault)
    else result

/-- What a rule or a terminal constructs from any value. -/
def construct (name : String) (given : Value) : Result Value :=
  ((ruleOn? name given).orElse fun _ => lexemeOn? name given).getD (.error (.fault .missingMember))

/-- A construction that fails, and the rule or terminal it belongs to. -/
structure Misconstruction where
  rule : String
  cause : Failure

def blame (rule : String) (result : Result α) : Except Misconstruction α :=
  match result with
  | .ok a => .ok a
  | .error cause => .error ⟨rule, cause⟩

mutual

/-- The value of a syntax tree, from the leaves up. -/
def valueOf : Syntax.Tree → Except Misconstruction Value
  | .leaf token =>
    match lexemeValue? token.kind token.text with
    | some result => blame token.kind result
    | none => .ok (.token token.kind token.text)
  | .node label children => do
    let items ← valuesOf children
    match rule? label items with
    | some result => blame label result
    | none => return .tree label true items

def valuesOf : List Syntax.Tree → Except Misconstruction (List Value)
  | [] => .ok []
  | tree :: rest => do
    let first ← valueOf tree
    let others ← valuesOf rest
    return first :: others

end

/-- Why a source text gives no program. -/
inductive SourceError where
  | syntactic (error : Syntax.SyntaxError)
  | construction (error : Misconstruction)

/-- The base picture of a text that was parsed. -/
def ofParse (parsed : Except Syntax.SyntaxError Syntax.Tree) : Except SourceError Value :=
  match parsed with
  | .error e => .error (.syntactic e)
  | .ok tree =>
    match valueOf tree with
    | .error e => .error (.construction e)
    | .ok v => .ok v

/-- The base picture written by a source text. -/
def program (source : String) : Except SourceError Value :=
  ofParse (Syntax.parseSource source)

/-- The base picture written by a source text in which there may be no comments. -/
def programWithoutComments (source : String) : Except SourceError Value :=
  ofParse (Syntax.parse source)

end SattLine.Build
