import SattLine.Build.Select

/-!
Graphical and interactive objects. What such an object refers to is gathered in its tails: the
variables behind `Enable_` and `InVar_`.
-/

namespace SattLine.Build

/-- Trees that are tails as a whole. -/
def isTailLabel (label : String) : Bool :=
  ["InVar_", "enable_expression", "invar_tail"].contains label

mutual

/-- The tails inside a value, in the order in which they are met. The tail of an enabling is
met twice: once as such and once as an entry. -/
def tails : Value → List Value
  | .dict keys values =>
    let enabled := match (Value.dict keys values).get? "enable",
        (Value.dict keys values).getOrNull "tail" with
      | none, _ => []
      | some _, .null => []
      | some _, tail => [tail]
    enabled ++ tailsOf values
  | .tree label ofRule children =>
    (if isTailLabel label then [.tree label ofRule children] else []) ++ tailsOf children
  | .list items => tailsOf items
  | _ => []

def tailsOf : List Value → List Value
  | [] => []
  | v :: rest => tails v ++ tailsOf rest

end

/-- The entry of a property that is left out when it has no content. -/
def propertyOf (key : String) (items : List Value) : List (String × Value) :=
  if items.isEmpty then [] else [(key, .list items)]

def graphObjectOf (type : String) (properties : List (String × Value)) : Value :=
  .element .graphObject [.text type, Value.ofEntries properties]

variable (items : List Value)

def areaOf : List (String × Value) :=
  match items.find? Value.isTuplePair with
  | some area => [("coords", area)]
  | none => []

def areaObject (type : String) (items : List Value) : Value :=
  graphObjectOf type (areaOf items ++ propertyOf "tails" (tailsOf items))

/-- An object of which only the tails are kept. -/
def plainObject (type : String) (items : List Value) : Value :=
  graphObjectOf type (propertyOf "tails" (tailsOf items))

def textOfItem (item : Value) : Result Value :=
  if item.isText then .ok item
  else
    match ((item.treeChildren? "text_content").getD []).find? Value.isText with
    | some text => .ok text
    | none => refuse (.noTextBefore item)

/-- The nearest text that is not empty among the items before a place, the nearest first. -/
def nearestText : List Value → Result (List Value)
  | [] => .ok []
  | item :: before => do
    let text ← textOfItem item
    if text.holds then return [text] else nearestText before

/-- The texts that name variables: before each mark of a variable name the nearest text. -/
def namedTexts : List Value → List Value → Result (List Value)
  | _, [] => .ok []
  | before, item :: rest => do
    let here ← match item with
      | .token "VARNAME" _ => nearestText before
      | _ => pure []
    return here ++ (← namedTexts (item :: before) rest)

def textObject : Result Value := do
  let names ← namedTexts [] items
  return graphObjectOf "TextObject"
    (areaOf items ++ propertyOf "tails" (tailsOf items) ++ propertyOf "text_vars" names)

def textContent : Result Value :=
  match items.find? Value.isText with
  | some text => .ok text
  | none => refuse (.noText items)

def layerInfo : Result Value :=
  match items.find? isInt with
  | some layer => .ok layer
  | none => refuse (.noText items)

def graphObject : Result Value := do
  match items.find? (Value.isElement .graphObject) with
  | none => refuse (.noGraphObject items)
  | some object =>
    match lastOrNull isInt items with
    | .null => return object
    | layer =>
      match ← object.field "properties" with
      | .dict keys values =>
        return object.setField "properties" ((Value.dict keys values).put "layer" layer)
      | _ => .error (.fault .wrongType)

def interactObjectOf (type : Value) (properties : List (String × Value)) : Value :=
  .element .interactObject [type, Value.ofEntries properties]

def interactObjects : Value :=
  .list <| items.flatMap fun v =>
    if v.isElement .interactObject then [v]
    else ((v.children?).getD []).filter (Value.isElement .interactObject)

def proceduresOf : Value → List Value
  | .dict keys values => ((Value.dict keys values).get? "procedure_call").toList
  | .list items => items.filterMap fun v => v.get? "procedure_call"
  | _ => []

def isOtherDict : Value → Bool
  | .dict keys values => !(Value.dict keys values).hasKey "procedure_call"
  | _ => false

def procedureButton : Value :=
  let procedure := match ((items.flatMap proceduresOf).getLast?).getD .null with
    | v => if v.holds then [("procedure", v)] else []
  interactObjectOf (.text "ComButProc_") <|
    [("coords", orNull (items.filter Value.isTuple))] ++ procedure ++
      propertyOf "tails" (items.filter isOtherDict)

def isNameToken : Value → Bool
  | .token "name" _ => true
  | _ => false

def lexemeText : Value → Value
  | .token _ s => .text s
  | v => v

/-- The name given by the first lexeme that is a name. -/
def nameOf : Value :=
  lexemeText (firstOrNull isNameToken items)

/-- The values without the first one that meets a condition. -/
def withoutFirst (p : Value → Bool) : List Value → List Value
  | [] => []
  | v :: rest => if p v then rest else v :: withoutFirst p rest

def procedureCall : Value :=
  Value.ofEntries [("procedure_call", Value.ofEntries [("name", nameOf items),
    ("args", .list (withoutFirst isNameToken items))])]

def bodyOf : Value → List Value
  | .tree "interact_body_seq" _ children => children
  | .list items => items
  | _ => []

def simpleInteraction : Value :=
  let type := lexemeText (firstOrNull Value.isToken items)
  interactObjectOf (if type.holds then type else .text "Interact")
    [("coords", orNull (items.filter Value.isTuple)), ("body", orNull (items.flatMap bodyOf))]

def isEnableExpression (v : Value) : Bool :=
  (v.treeChildren? "enable_expression").isSome

def interactAssignment : Value :=
  Value.ofEntries [("assign", Value.ofEntries [("name", nameOf items),
    ("value", lastOrNull (fun v => !v.isToken && !isEnableExpression v) items),
    ("tail", lastOrNull isEnableExpression items)])]

def isExtraToken : Value → Bool
  | .token kind _ => kind == "STRING" || kind == "SIGNED_INT"
  | _ => false

def interactFlag : Value :=
  Value.ofEntries [("name", nameOf items),
    ("extra", lexemeText (lastOrNull isExtraToken items)),
    ("tail", lastOrNull (fun v => !v.isToken) items)]

/-- An enabling with its tail. Without a truth value it holds. -/
def enabling : Value :=
  let isBool : Value → Bool := fun v => match v with
    | .bool _ => true
    | _ => false
  let value := match lastOrNull isBool items with
    | .bool b => b
    | _ => true
  Value.ofEntries [("enable", .bool value),
    ("tail", lastOrNull (fun v => !isBool v && !v.isToken) items)]

/-- The first value that is not a lexeme. -/
def firstValue (refusal : List Value → Refusal) (items : List Value) : Result Value :=
  match (withoutTokens items).head? with
  | some v => .ok v
  | none => refuse (refusal items)

end SattLine.Build
