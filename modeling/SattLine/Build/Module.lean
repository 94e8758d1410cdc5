import SattLine.Build.Select

/-!
Modules: headers and their arguments, coordinates, module definitions, invocations of new
modules and of module types, type definitions and the base picture.
-/

namespace SattLine.Build

open Number

variable (items : List Value)

def coordinates : Result Value := do
  match ← reals items with
  | x :: y :: _ => return realPair x y
  | found => refuse (.coordinatesShort found.length)

def invokeCoord : Result Value := do
  let found ← reals items
  if found.length < 5 then refuse (.invocationShort found.length)
  else return .tuple ((found.take 5).map .real)

/-- The pair of reals that an item stands for, if it does. -/
def cornerOf (item : Value) : Result (List Value) := do
  match numberPair? item, item.treeChildren? "coordinates" with
  | some (x, y), _ => return [realPair (← x.toDouble) (← y.toDouble)]
  | none, some children =>
    match ← reals children with
    | x :: y :: _ => return [realPair x y]
    | _ => return []
  | none, none => return []

def origoSizePair : Result Value := do
  let corners ← items.mapM cornerOf
  match corners.flatten with
  | [origo, size] => return .tuple [origo, size]
  | found => refuse (.pairsWrong found.length)

structure HeaderArguments where
  layer : Value := .null
  enable : Value := .bool true
  enableTail : Value := .null
  zoomLimits : Value := .null
  zoomable : Bool := false

/-- The first layer counts, of all else the last. -/
def HeaderArguments.add (a : HeaderArguments) (v : Value) : HeaderArguments :=
  if isInt v then if a.layer.isNull then { a with layer := v } else a
  else if v.hasKey "enable" then
    let a := { a with enable := v.getOrNull "enable" }
    let tail := v.getOrNull "tail"
    if tail.isNull then a else { a with enableTail := tail }
  else if v.hasKey "ZoomLimits" then { a with zoomLimits := v.getOrNull "ZoomLimits" }
  else if v.hasKey "Zoomable" then { a with zoomable := true }
  else a

/-- The five coordinates of an invocation, if the value is one. -/
def invocation? : Value → Option (List Value)
  | .tuple items =>
    if 5 ≤ items.length && items.all Value.isNumber then some (items.take 5) else none
  | _ => none

/-- The last of the invocations gives the place of a module, but each has to be one of reals. -/
def moduleHeader : Result Value := do
  let invocations ← (items.filterMap invocation?).mapM fun coord =>
    coord.mapM fun v => do return Value.real (← v.toDouble)
  match invocations.getLast? with
  | none => refuse .noInvocation
  | some coord =>
    let arguments := (allChildren "arguments" items).foldl HeaderArguments.add {}
    let layer ← if arguments.layer.isNull then pure .null
      else do pure (.text (← arguments.layer.shown))
    return Value.ofFields .moduleHeader [("name", orEmpty (firstOrNull Value.isText items)),
      ("invoke_coord", .tuple coord), ("layer_info", layer), ("enable", arguments.enable),
      ("zoom_limits", arguments.zoomLimits), ("zoomable", .bool arguments.zoomable),
      ("enable_tail", arguments.enableTail)]

/-- The modules below a section of submodules. -/
def submodulesUnder : List Value :=
  (allChildren "SUBMODULES" items).flatMap fun v =>
    match v with
    | .list modules => modules.filter Value.isModule
    | v => if v.isModule then [v] else []

def submodules : Value :=
  let modules := items.flatMap fun v =>
    if v.isModule then [v] else ((v.children?).getD []).filter Value.isModule
  .tree "SUBMODULES" false [.list modules]

def scanGroupOf : Value :=
  lastOrNull (fun v => v.hasKey "groupconn") items

/-- An element with the scan group, if there is one. -/
def withScanGroup (group : Value) (element : Value) : Value :=
  if group.isNull then element
  else
    (element.setField "groupconn" (group.getOrNull "groupconn")).setField "groupconn_global"
      (.bool (group.getOrNull "global").holds)

def lastElement (kind : Element) (items : List Value) : Value :=
  lastOrNull (Value.isElement kind) items

def basePicture : Result Value := do
  match items with
  | [] => refuse .noItems
  | header :: body =>
    let body := flattenAll body
    let coord ← header.field "invoke_coord"
    let typeDefs := body.flatMap fun v =>
      if v.isElement .typeDef then [v] else elementsUnder "moduletype_list" .typeDef [v]
    let dataTypes := body.flatMap fun v =>
      if v.isElement .dataType then [v] else elementsUnder "datatype_list" .dataType [v]
    return Value.ofFields .basePicture [("header", withScanGroup (scanGroupOf body) header),
      ("name", .text "BasePicture"), ("position", coord), ("datatype_defs", .list dataTypes),
      ("moduletype_defs", .list typeDefs),
      ("localvariables", .list (elementsUnder "LOCALVARIABLES" .variable body)),
      ("submodules", .list (submodulesUnder body)),
      ("moduledef", lastElement .moduleDef body), ("modulecode", lastElement .moduleCode body)]

/-- A new module. The mark of a frame makes it one without parameters and variables. -/
def newModule : Result Value := do
  let isFrame := items.any fun v => match v with
    | .bool true => true
    | _ => false
  let body := flattenAll items
  match body.find? (Value.isElement .moduleHeader) with
  | none => refuse .noHeader
  | some header =>
    let header := withScanGroup (scanGroupOf body) header
    let datecode := firstOrNull isInt body
    let modules := Value.list (submodulesUnder body)
    let moduleDef := lastElement .moduleDef body
    let moduleCode := lastElement .moduleCode body
    if isFrame then return .element .frameModule [header, datecode, modules, moduleDef, moduleCode]
    else return .element .singleModule [header, moduleDef, datecode,
      .list (elementsUnder "MODULEPARAMETERS" .variable body),
      .list (elementsUnder "LOCALVARIABLES" .variable body), modules, moduleCode,
      .list (elementsUnder "moduletype_par_list" .parameterMapping body)]

def typeInstance : Result Value := do
  let name := firstOrNull Value.isText items
  match lastElement .moduleHeader items with
  | .null => refuse .noHeader
  | header =>
    if name.holds then
      return .element .typeInstance [header, name,
        .list (elementsUnder "moduletype_par_list" .parameterMapping items)]
    else refuse .noTypeName

def typeDefinition : Result Value := do
  let body := flattenAll items
  match firstOrNull Value.isText body with
  | .null => refuse .noDefinitionName
  | name =>
    return withScanGroup (scanGroupOf body) <| Value.ofFields .typeDef [("name", name),
      ("datecode", firstOrNull isInt body),
      ("moduleparameters", .list (elementsUnder "MODULEPARAMETERS" .variable body)),
      ("localvariables", .list (elementsUnder "LOCALVARIABLES" .variable body)),
      ("submodules", .list (submodulesUnder body)),
      ("moduledef", lastElement .moduleDef body), ("modulecode", lastElement .moduleCode body)]

def typeDefinitions : Value :=
  .tree "moduletype_list" false <| items.flatMap fun v =>
    if v.isElement .typeDef then [v] else elementsUnder "moduletype_definition" .typeDef [v]

def grid : Result Value := do
  let numbers ← (withoutTokens items).mapM fun v =>
    match readReal v with
    | .ok x => .ok x
    | .error .tooLarge => .error (.fault .tooLarge)
    | .error _ => refuse (.gridNotNumeric v)
  match numbers.getLast? with
  | some x => return .real x
  | none => refuse (.gridEmpty items)

def zoomLimits : Result Value := do
  match items.reverse with
  | high :: low :: _ => return Value.ofEntries [("ZoomLimits", .tuple [low, high])]
  | _ => .error (.fault .outOfRange)

def layerLimit : Result Value := do
  let found ← items.mapM fun v =>
    match v with
    | .token _ s => pure (Number.readDouble? s)
    | v => if v.isNumber then do pure (some (← v.toDouble)) else pure none
  match (found.filterMap id).getLast? with
  | some x => return Value.ofEntries [("seq_layers", .real x)]
  | none => refuse (.noLayerLimit items)

/-- Enters the entries of a dictionary, or pairs of a key and a value. -/
def enterFrom (d : Value) : Value → Except Fault Value
  | .dict keys values => d.enterAll (keys.zip values)
  | v => do
    (← v.elements).foldlM (fun d pair => do
      let (key, value) ← pair.halves
      d.enter key value) d

/-- Options merged into one dictionary; of two with one key the later counts. -/
def moduleOptions : Result Value := do
  let merged : Except Fault Value := items.foldlM enterFrom (.dict [] [])
  return .tree "moduledef_opts_seq" false [← merged]

/-- Enters one option into the definition of a module's picture. -/
def addOption (definition : Value) (option : Value) : Result Value := do
  let enter (key name : String) (d : Value) : Value :=
    match option.get? key with
    | some v => d.setField name v
    | none => d
  let d := enter "Zoomable" "zoomable" (enter "ZoomLimits" "zoom_limits" definition)
  let grid := option.getOrNull "Grid"
  let d ← if grid.isNull then pure d else do pure (d.setField "grid" (.real (← readReal grid)))
  return enter "seq_layers" "seq_layers" d

def addToDefinition (definition : Value) (item : Value) : Result Value :=
  match item with
  | .list (first :: rest) =>
    if first.isElement .graphObject then
      .ok (definition.setField "graph_objects" (.list (first :: rest)))
    else if first.isElement .interactObject then
      .ok (definition.setField "interact_objects" (.list (first :: rest)))
    else .ok definition
  | .dict keys values => addOption definition (.dict keys values)
  | item =>
    if item.isTuplePair then .ok (definition.setField "clipping_bounds" item) else .ok definition

def moduleDef : Result Value :=
  items.foldlM addToDefinition (Value.ofFields .moduleDef [])

def dateCode : List Value → List Value → Result Value
  | all, [] => refuse (.noDateCode all)
  | all, v :: rest =>
    match v with
    | .token "SL_DATECODE" s =>
      match Number.readInt? s with
      | some n => .ok (.int n)
      | none => refuse (.dateCodeUnreadable s)
    | v => if isInt v then .ok v else dateCode all rest

end SattLine.Build
