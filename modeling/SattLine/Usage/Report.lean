import SattLine.Usage.Analysis

/-!
The analysis of a whole program: the walk, the issues that the marks show, and the account of
one variable.
-/

namespace SattLine.Usage

def issueAt (kind : IssueKind) (d : Declaration) : Issue :=
  { kind := kind, path := d.path, subject := d.declared, role := some d.role.name }

/-- A variable that could be a constant: it is read only and of a simple type. -/
def couldBeConst (marks : Marks) (v : Variable) : Bool :=
  (marks.get v).isReadOnly && !v.const.holds && v.type.isSimple

/-- The issue of a declared variable. Parameters are only reported when they are not used, and
variables that are never read only where `unread` holds. -/
def issueOf (marks : Marks) (unread : Bool) (d : Declaration) : Option Issue :=
  let usage := marks.get d.declared
  if usage.isUnused then some (issueAt .unused d)
  else if d.role == .parameter then none
  else if couldBeConst marks d.declared then some (issueAt .readOnly d)
  else if unread && usage.isWriteOnly then some (issueAt .neverRead d)
  else none

/-- Declarations of one type at several places. -/
def repeated (ds : List Declaration) : Option Issue :=
  match ds with
  | first :: second :: rest =>
    some { issueAt .repeatedType first with
      count := some ds.length
      others := some ((second :: rest).map fun d => (d.path, d.role.name)) }
  | _ => none

/-- The issues of types that are no record types and are declared more than once. -/
def repeatedTypes (p : Picture) (ds : List Declaration) : List Issue :=
  let typeKey (d : Declaration) := Text.lower d.declared.type.text
  let groups := groupBy typeKey (ds.filter fun d => !d.declared.type.isSimple)
  (groups.filter fun g => !p.recordKeys.contains g.1).filterMap fun g => repeated g.2

/-- The module types that come from the file of the picture. -/
def ownTypes (p : Picture) : List TypeDef → Except Fault (List TypeDef)
  | [] => .ok []
  | type :: rest => do
    let own ← p.isOwnFile type.originFile
    let others ← ownTypes p rest
    return if own then type :: others else others

def reportRepeatedTypes (p : Picture) : Walk Unit := do
  let path ← rootPath p
  let types ← Walk.ofFault (ownTypes p p.types)
  let ds := p.moduleDeclarations path ++ types.flatMap (TypeDef.ownDeclarations path)
  modify fun s => { s with issues := s.issues ++ repeatedTypes p ds }

def reportDeclarations (unread : Bool) (ds : List Declaration) : Walk Unit :=
  modify fun s => { s with issues := s.issues ++ ds.filterMap (issueOf s.marks unread) }

/-- Walks each module type of the picture's own file and reports its variables. -/
def reportTypes (p : Picture) : List TypeDef → Walk Unit
  | [] => pure ()
  | type :: rest => do
    if ← Walk.ofFault (p.isOwnFile type.originFile) then
      walkType p p.types.length type [p.header.name, type.label]
      reportDeclarations true (type.ownDeclarations [p.header.name])
    reportTypes p rest

/-- Gives every connected parameter the uses of its source. -/
def replayAliases : Walk Unit :=
  modify fun s => { s with marks := replay s.aliases s.marks }

def analysis (p : Picture) : Walk (List Issue) := do
  modify fun s => { s with issues := [] }
  walkPicture p
  replayAliases
  reportRepeatedTypes p
  let path := [p.header.name]
  reportDeclarations true (Declaration.localsAt path p.locals)
  reportDeclarations false (Module.declarationsOf path p.submodules)
  reportTypes p p.types
  return (← get).issues

def State.start (marks : Marks) : State :=
  { marks := marks }

/-- The outcome of a fresh analysis and the marks after it. -/
def analyze (p : Picture) (marks : Marks) : Except Problem (List Issue) × Marks :=
  let (result, state) := (analysis p).run.run (State.start marks)
  (result, state.marks)

def truthText (b : Bool) : String :=
  if b then "True" else "False"

def accountOf (marks : Marks) (number : Nat) (v : Variable) : List String :=
  let usage := marks.get v
  let heading := "- [" ++ toString number ++ "] Decl: type=" ++ v.type.text ++ ", const=" ++
    truthText v.const.holds ++ ", state=" ++ truthText v.state.holds
  let line := "    Summary: read=" ++ truthText usage.read ++ ", written=" ++
    truthText usage.written
  let places := usage.places.map fun (path, access) =>
    let word := match access with
      | .read => "READ  "
      | .write => "WRITE "
    "      - " ++ word ++ " at " ++ " -> ".intercalate path
  [heading, line] ++
    if places.isEmpty then ["    No recorded usage locations."] else "    Locations:" :: places

/-- The account of all variables whose name in small letters is the given one. -/
def account (p : Picture) (marks : Marks) (name : String) : String :=
  let found := p.findable.filter fun v => v.key == name
  if found.isEmpty then "No variables named " ++ Text.quoted name ++ " found."
  else
    let heading := "Usage report for variable name " ++ Text.quoted name ++ " (" ++
      toString found.length ++ " declaration(s)):"
    "\n".intercalate <|
      heading :: (found.zipIdx 1).flatMap fun (v, number) => accountOf marks number v

/-- The same for any value; only texts name variables, and what is no key cannot be looked up. -/
def accountFor (p : Picture) (marks : Marks) (name : Value) : Except Fault String := do
  let _ ← name.key
  match name with
  | .text s => return account p marks s
  | name => return "No variables named " ++ name.literal ++ " found."

mutual

/-- The variables of a module that meet a condition, without their roles. -/
def collect (kind : IssueKind) (meets : Variable → Bool) (path : Path) : Module → List Issue
  | .single info submodules =>
    let inside := path ++ [info.header.name]
    ((info.scope.filter meets).map fun v => { kind := kind, path := inside, subject := v }) ++
      collectAll kind meets inside submodules
  | .frame info submodules => collectAll kind meets (path ++ [info.header.name]) submodules
  | .typed _ => []
  | .stray _ => []

def collectAll (kind : IssueKind) (meets : Variable → Bool) (path : Path) :
    List Module → List Issue
  | [] => []
  | m :: rest => collect kind meets path m ++ collectAll kind meets path rest

end

def unusedIn (marks : Marks) : Path → Module → List Issue :=
  collect .unused fun v => (marks.get v).isUnused

/-- The variables of a module that are only read and not constant, of any type. -/
def readOnlyIn (marks : Marks) : Path → Module → List Issue :=
  collect .readOnly fun v => (marks.get v).isReadOnly && !v.const.holds

end SattLine.Usage
