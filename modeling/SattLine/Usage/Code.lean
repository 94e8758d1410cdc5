import SattLine.Usage.Expression

/-!
The occurrences of variables in the code of a module (sequences and equations), in its graphics
and in its invocation.
-/

namespace SattLine.Usage

mutual

def nodes : Value → List Finding
  | .list items | .tuple items | .dict items _ => nodesOf items
  | v =>
    match v.elements with
    | .ok _ => []
    | .error f => [.fault f]

def nodesOf : List Value → List Finding
  | [] => []
  | .element kind fields :: rest => node kind fields ++ nodesOf rest
  | _ :: rest => nodesOf rest

/-- The occurrences in a node: steps have statements, transitions a condition, and the others
nodes of their own. -/
def node : Element → List Value → List Finding
  | .step, [_, _, .element .codeBlocks [enter, active, exit]] =>
    block enter ++ block active ++ block exit
  | .step, _ => [.fault .missingMember]
  | .transition, [_, condition] => expression condition
  | .alternative, [branches] | .parallel, [branches] => nodeBranches branches
  | .subsequence, [_, body] | .transitionSub, [_, body] => nodes body
  | _, _ => []

def nodeBranches : Value → List Finding
  | .list branches | .tuple branches | .dict branches _ => nodeBranchesOf branches
  | v =>
    match v.elements with
    | .ok _ => []
    | .error f => [.fault f]

def nodeBranchesOf : List Value → List Finding
  | [] => []
  | branch :: rest => nodes branch ++ nodeBranchesOf rest

end

/-- The findings in the code of a sequence or an equation. -/
def inCode (find : Value → List Finding) (v : Value) : List Finding :=
  match v.field? "code" with
  | some code => if code.holds then find code else []
  | none => [.fault .missingMember]

def sequence (v : Value) : List Finding :=
  inCode nodes v

def equation (v : Value) : List Finding :=
  inCode block v

/-- The findings in all items of a list that may be left out. -/
def inItems (find : Value → List Finding) (v : Value) : List Finding :=
  match v.elements with
  | .ok items => items.flatMap find
  | .error f => if v.holds then [.fault f] else []

/-- The occurrences in the code of a module: sequences first, then equations. -/
def code : Value → List Finding
  | .null => []
  | .element .moduleCode [sequences, equations] =>
    inItems sequence sequences ++ inItems equation equations
  | _ => [.fault .missingMember]

def namedRead (name : String) : List Finding :=
  if name == "" then [] else [.ok ⟨name, .read, .scopeThenProgram⟩]

def strangeTail (v : Value) : List Finding :=
  match v.shown with
  | .ok s => [.error (.strangeTail v.kindName s)]
  | .error f => [.fault f]

/-- The occurrences in a tail: an expression, a name or a reference. -/
def tail : Value → List Finding
  | .null => []
  | .tuple items => expression (.tuple items)
  | .text s | .token _ s => namedRead (Text.lower (Text.before '.' s))
  | v =>
    if isReference v then accesses [.read] .scopeThenProgram v else strangeTail v

/-- The tail of an assigning part. -/
def assigned : Value → List Finding
  | .dict keys values => tail ((Value.dict keys values).getOrNull "tail")
  | v => if v.holds then [.fault .missingMember] else []

mutual

/-- The occurrences in the body of an interaction: the tails of enabling and assigning parts,
however deep they stand. -/
def body : Value → List Finding
  | .list items => bodies items
  | .dict keys values =>
    let whole := Value.dict keys values
    (if whole.hasKey "enable" then tail (whole.getOrNull "tail") else []) ++
      assigned (whole.getOrNull "assign") ++ bodies values
  | .tree label ofRule children =>
    if label == "enable_expression" || label == "InVar_" || label == "invar_tail" then
      strangeTail (.tree label ofRule children)
    else bodies children
  | _ => []

def bodies : List Value → List Finding
  | [] => []
  | v :: rest => body v ++ bodies rest

end

/-- The findings in the properties of a graphic or interactive object. -/
def inProperties (find : Value → List Finding) (v : Value) : List Finding :=
  match v.field? "properties" with
  | some (.dict keys values) => find (.dict keys values)
  | some properties => if properties.holds then [.fault .missingMember] else []
  | none => []

/-- A variable that is shown in a text. Its name is looked up in scope as it is written. -/
def shownVariable (v : Value) : List Finding :=
  match v.text? with
  | some s => namedRead (Text.before '.' s)
  | none => []

def graphObject : Value → List Finding :=
  inProperties fun properties =>
    inItems shownVariable (properties.getOrNull "text_vars") ++
      inItems tail (properties.getOrNull "tails")

def procedure (v : Value) : List Finding :=
  match v.get? "procedure_call" with
  | none => []
  | some (.dict keys values) =>
    let whole := Value.dict keys values
    call (routineOf (whole.getOrNull "name")) (whole.getOrNull "args")
  | some _ => [.fault .missingMember]

def interactObject : Value → List Finding :=
  inProperties fun properties =>
    inItems tail (properties.getOrNull "tails") ++ body (properties.getOrNull "body") ++
      procedure (properties.getOrNull "procedure")

def definition (v : Value) : List Finding :=
  match v with
  | .null => []
  | .element .moduleDef [_, _, _, _, _, graphs, interactions] =>
    inItems graphObject graphs ++ inItems interactObject interactions
  | _ => [.fault .missingMember]

/-- The variable that puts a module into a scan group. -/
def group (connection isGlobal : Value) : List Finding :=
  referenceAccesses [.read] (if isGlobal.holds then .program else .scope) connection

def header (h : Header) : List Finding :=
  tail h.enableTail ++ group h.groupConn h.groupGlobal

end SattLine.Usage
