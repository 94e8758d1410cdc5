import SattLine.Program.OfValue
import SattLine.Usage.Code
import SattLine.Usage.Issue

/-!
The walk over a program that marks the uses of its variables. A module passes on the uses of its
parameters to the variables that they are connected to; a module type is walked once for the
first instance that needs it, and what it does with its parameters is kept for the others.
-/

namespace SattLine.Usage

/-- The parameters of a module that are read and those that are written, in small letters. -/
structure ParameterUse where
  reads : List String := []
  writes : List String := []

structure State where
  marks : Marks
  /-- The parameter use of the module types already walked, newest first. -/
  typeUse : List (String × ParameterUse) := []
  /-- Variables with the parameters that are connected to them. -/
  aliases : List (Variable × Variable) := []
  issues : List Issue := []

/-- A walk goes on with the state that it has reached, also when it fails. -/
abbrev Walk := ExceptT Problem (StateM State)

namespace Walk

def ofFault : Except Fault α → Walk α
  | .ok a => pure a
  | .error f => throw (.fault f)

end Walk

def resolve (p : Picture) (scope : List Variable) (o : Occurrence) : Option Variable :=
  match o.reach with
  | .scope => Variable.find? scope o.name
  | .program => p.find? o.name
  | .scopeThenProgram =>
    match Variable.find? scope o.name with
    | some v => some v
    | none => p.find? o.name

def mark (v : Variable) (access : Access) (path : Path) : Walk Unit :=
  modify fun s => { s with marks := s.marks.note v access path }

def markAll (v : Variable) (kinds : List Access) (path : Path) : Walk Unit :=
  match kinds with
  | [] => pure ()
  | access :: rest => do
    mark v access path
    markAll v rest path

/-- Marks the variables that occur; the names of no variable are passed over. -/
def record (p : Picture) (scope : List Variable) (path : Path) : List Finding → Walk Unit
  | [] => pure ()
  | .error problem :: _ => throw problem
  | .ok o :: rest => do
    match resolve p scope o with
    | some v => mark v o.access path
    | none => pure ()
    record p scope path rest

/-- The variable that a mapping takes its value from. -/
def sourceOf (p : Picture) (scope : List Variable) (m : Mapping) :
    Except Fault (Option Variable) := do
  match ← baseName m.source with
  | none => return none
  | some name =>
    if isReference m.source then
      match Variable.find? scope name with
      | some v => return some v
      | none => return p.find? name
    else return p.find? name

/-- The accesses to the source of a mapping that the use of its target brings about. -/
def passedOn (use : ParameterUse) (target : Option String) : List Access :=
  match target with
  | none => []
  | some name =>
    (if use.reads.contains name then [.read] else []) ++
      (if use.writes.contains name then [.write] else [])

/-- Marks the source of a mapping. A global source is read. The source for a module type that is
not known (`use` is `none`) is read and written. -/
def passOn (p : Picture) (use : Option ParameterUse) (scope : List Variable) (path : Path)
    (m : Mapping) : Walk Unit := do
  let name ← Walk.ofFault (baseName m.source)
  let target ← Walk.ofFault (baseName m.target)
  if m.isGlobal.holds then
    match name.bind p.find? with
    | some v => mark v .read path
    | none => pure ()
  else
    match ← Walk.ofFault (sourceOf p scope m) with
    | none => pure ()
    | some v =>
      match use with
      | none => markAll v [.read, .write] path
      | some use => markAll v (passedOn use target) path

def stringLimit : SimpleType → Option Nat
  | .identstring => some 15
  | .tagstring => some 30
  | .string => some 40
  | .linestring => some 80
  | .maxstring => some 140
  | _ => none

def isStringType : TypeRef → Bool
  | .simple type => (stringLimit type).isSome
  | .record _ => false

/-- Whether a parameter of one string type is connected to a variable of another. -/
def mismatched (target source : Variable) : Bool :=
  isStringType target.type && isStringType source.type && target.type != source.type

def report (issue : Issue) : Walk Unit :=
  modify fun s => { s with issues := s.issues ++ [issue] }

def mismatch (target source : Variable) (path : Path) : Issue :=
  { kind := .stringMismatch
    path := path
    subject := target
    role := some "parameter mapping type mismatch"
    source := some source }

def checkMapping (p : Picture) (target : Option Variable) (scope : List Variable) (path : Path)
    (m : Mapping) : Walk Unit := do
  match target with
  | none => pure ()
  | some target =>
    if m.isGlobal.holds then pure ()
    else
      match ← Walk.ofFault (sourceOf p scope m) with
      | none => pure ()
      | some source =>
        if mismatched target source then report (mismatch target source path)
        else pure ()

/-- The parameter that has exactly the name of a target in small letters. -/
def exactTarget (parameters : List Variable) (m : Mapping) : Except Fault (Option Variable) := do
  match ← baseName m.target with
  | none => return none
  | some name => return parameters.reverse.find? fun v => v.name == name

def scopeTarget (scope : List Variable) (m : Mapping) : Except Fault (Option Variable) := do
  match ← baseName m.target with
  | none => return none
  | some name => return Variable.find? scope name

/-- Checks the mappings of a module against its parameters. -/
def checkMappings (p : Picture) (parameters scope : List Variable) (path : Path) :
    List Mapping → Walk Unit
  | [] => pure ()
  | m :: rest => do
    let target ← Walk.ofFault (exactTarget parameters m)
    checkMapping p target scope path m
    checkMappings p parameters scope path rest

/-- Checks the mappings that a module type states for its own variables. -/
def checkOwnMappings (p : Picture) (scope : List Variable) (path : Path) :
    List Mapping → Walk Unit
  | [] => pure ()
  | m :: rest => do
    let target ← Walk.ofFault (scopeTarget scope m)
    checkMapping p target scope path m
    checkOwnMappings p scope path rest

def passOnAll (p : Picture) (use : Option ParameterUse) (scope : List Variable) (path : Path) :
    List Mapping → Walk Unit
  | [] => pure ()
  | m :: rest => do
    passOn p use scope path m
    passOnAll p use scope path rest

/-- Keeps which variables around a module its parameters are connected to. -/
def link (p : Picture) (inner outer : List Variable) : List Mapping → Walk Unit
  | [] => pure ()
  | m :: rest => do
    let source ← Walk.ofFault (sourceOf p outer m)
    let target ← Walk.ofFault (scopeTarget inner m)
    match source, target with
    | some source, some target =>
      modify fun s => { s with aliases := s.aliases ++ [(source, target)] }
    | _, _ => pure ()
    link p inner outer rest

def ParameterUse.ofMarks (marks : Marks) (parameters : List Variable) : ParameterUse where
  reads := (parameters.filter fun v => (marks.get v).read).map Variable.key
  writes := (parameters.filter fun v => (marks.get v).written).map Variable.key

/-- The parameter use of a module type, which is walked now if it was not yet. -/
def typeUse (onType : TypeDef → Path → Walk Unit) (type : TypeDef) (path : Path) :
    Walk ParameterUse := do
  match (← get).typeUse.lookup type.key with
  | some use => return use
  | none =>
    onType type (path ++ [type.label])
    return (((← get).typeUse.lookup type.key).getD {})

mutual

/-- Walks a module below the given scope and path. `onType` walks a module type. -/
def walkModule (p : Picture) (onType : TypeDef → Path → Walk Unit) (scope : List Variable)
    (path : Path) : Module → Walk Unit
  | .single info submodules => do
    let inside := path ++ [info.header.name]
    record p scope inside (header info.header)
    record p info.scope inside (definition info.definition)
    record p info.scope inside (code info.code)
    walkModules p onType info.scope inside submodules
    let use := ParameterUse.ofMarks (← get).marks info.parameters
    link p info.scope scope info.mappings
    passOnAll p (some use) scope path info.mappings
    checkMappings p info.parameters scope inside info.mappings
  | .frame info submodules => do
    let inside := path ++ [info.header.name]
    record p scope inside (header info.header)
    record p scope inside (definition info.definition)
    record p scope inside (code info.code)
    walkModules p onType scope inside submodules
  | .typed info => do
    let inside := path ++ [info.header.name]
    record p scope inside (header info.header)
    match p.type? info.typeName with
    | none => passOnAll p none scope path info.mappings
    | some type =>
      let use ← typeUse onType type path
      passOnAll p (some use) scope path info.mappings
      checkMappings p type.parameters scope inside info.mappings
  | .stray v => do
    let invocation ← Walk.ofFault do (← v.field "header").toHeader
    record p scope (path ++ [invocation.name]) (header invocation)
    if v.isModule then throw (.fault .missingMember)

def walkModules (p : Picture) (onType : TypeDef → Path → Walk Unit) (scope : List Variable)
    (path : Path) : List Module → Walk Unit
  | [] => pure ()
  | m :: rest => do
    walkModule p onType scope path m
    walkModules p onType scope path rest

end

/-- Walks a module type. Types nest no deeper than there are types, so `depth` starts with their
number. -/
def walkType (p : Picture) : Nat → TypeDef → Path → Walk Unit
  | 0, _, _ => pure ()
  | depth + 1, type, path => do
    record p type.scope path (definition type.definition)
    record p type.scope path (code type.code)
    walkModules p (walkType p depth) type.scope path type.submodules
    record p type.scope path (group type.groupConn type.groupGlobal)
    modify fun s =>
      let use := ParameterUse.ofMarks s.marks type.parameters
      { s with typeUse := (type.key, use) :: s.typeUse }
    checkOwnMappings p type.scope path type.mappings

/-- The path of the picture itself, whose name its header states. -/
def rootPath (p : Picture) : Walk Path :=
  if p.absent.contains "header" then throw (.fault .missingMember) else return [p.header.name]

def walkPicture (p : Picture) : Walk Unit := do
  let path ← rootPath p
  record p p.locals path (code p.code)
  record p p.locals path (definition p.definition)
  record p p.locals path (header p.header)
  walkModules p (walkType p p.types.length) p.locals path p.submodules

/-- Gives every connected parameter the uses of the variable that it is connected to. -/
def replay : List (Variable × Variable) → Marks → Marks
  | [], marks => marks
  | (source, target) :: rest, marks =>
    replay rest <| (marks.get source).places.foldl
      (fun marks place => marks.note target place.2 place.1) marks

end SattLine.Usage
