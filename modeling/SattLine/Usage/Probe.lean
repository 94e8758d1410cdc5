import SattLine.Usage.Name
import SattLine.Usage.Part
import SattLine.Usage.Report

/-!
Single steps of the analysis on given parts of a program, and the questions that it asks on its
way.
-/

namespace SattLine.Usage

inductive Answer where
  | nothing
  | truth (b : Bool)
  | text (s : Option String)
  | number (n : Option Nat)
  | names (names : List String)
  | found (v : Option Variable)
  | issues (issues : List Issue)
  /-- Issues that are only listed, not reported. -/
  | listed (issues : List Issue)
  | scope (named : List (String × Variable))
  | use (use : ParameterUse)

inductive Probe where
  | whole
  | replayAliases
  | repeatedTypes
  /-- Records what is found in a value. -/
  | look (find : Value → List Finding)
  /-- The same for a name that is read. -/
  | lookAtName
  | lookAtCall
  | lookAtEnabling
  | lookAtGroup
  | variableName
  | isString
  | stringLimit
  | typeName
  | isDottedName
  | namesIn
  | inProgram
  | inScope
  | isOwnFile
  | isUnknownType
  | isSimple
  | passOn
  | checkMapping
  | checkSingle
  | checkInstance
  | reportModule
  | reportMismatch
  | walkType
  | walkBelow
  | walkInside
  | scopeOf
  | unused
  | readOnly

namespace Probe

/-- The name of a type, or the text of anything else. -/
def typeText : Value → String
  | .simpleType t => t.name
  | v => v.plain

def limitOf : Value → Option Nat
  | .simpleType t => Usage.stringLimit t
  | _ => none

/-- The text of a value. An empty value has none; any other value is a fault. -/
def textOrNone (v : Value) : Except Fault (Option String) :=
  match v.text? with
  | some s => .ok (some s)
  | none => if v.holds then .error .missingMember else .ok none

def textOr (fault : Fault) (v : Value) : Except Fault String :=
  match v.text? with
  | some s => .ok s
  | none => .error fault

/-- The variable in scope that a reference names. -/
def inScopeOf (scope : List Variable) (v : Value) : Except Fault (Option Variable) := do
  return (← baseName v).bind (Variable.find? scope)

/-- Findings where nothing can be marked: the first variable that is found is a fault. -/
def refuseMarks (p : Picture) (scope : List Variable) : List Finding → Walk Unit
  | [] => pure ()
  | .error problem :: _ => throw problem
  | .ok o :: rest =>
    if (resolve p scope o).isSome then throw (.fault .missingMember) else refuseMarks p scope rest

def note (p : Picture) (scope path : Part) (found : List Finding) : Walk Answer := do
  if found.isEmpty then return .nothing
  let scope ← scope.asScope
  match ← path.asPath? with
  | some path => record p scope path found
  | none => refuseMarks p scope found
  return .nothing

def fieldOrNull (v : Value) (name : String) : Value :=
  (v.field? name).getD .null

/-- The variables of a scope under the names by which they are found. -/
def byKey (scope : List Variable) : List (String × Variable) :=
  (scope.map Variable.key).eraseDups.filterMap fun key =>
    (Variable.find? scope key).map (key, ·)

/-- Takes the probe; the parts are those that it needs, in order. -/
def run (p : Picture) : Probe → List Part → Walk Answer
  | .whole, _ => return .issues (← analysis p)
  | .replayAliases, _ => do Usage.replayAliases; return .nothing
  | .repeatedTypes, _ => do reportRepeatedTypes p; return .nothing
  | .look find, [a, scope, path] => do note p scope path (find (← a.asValue))
  | .lookAtName, [a, scope, path] => do
    match ← a.read textOrNone with
    | some name => note p scope path (namedRead name)
    | none => return .nothing
  | .lookAtCall, [f, a, scope, path] => do
    note p scope path (call (routineOf (← f.asValue)) (← a.asValue))
  | .lookAtEnabling, [h, scope, path] => do
    note p scope path (tail (fieldOrNull (← h.asValue) "enable_tail"))
  | .lookAtGroup, [h, scope, path] => do
    let h ← h.asValue
    note p scope path (group (fieldOrNull h "groupconn") (fieldOrNull h "groupconn_global"))
  | .variableName, [a] => return .text (← a.read baseName)
  | .isString, [a] => return .truth (limitOf (← a.asValue)).isSome
  | .stringLimit, [a] => return .number (limitOf (← a.asValue))
  | .typeName, [a] => return .text (some (typeText (← a.asValue)))
  | .isDottedName, [a] => return .truth (Usage.isDottedName (← a.read (textOr .wrongType)))
  | .namesIn, [a] => return .names (Usage.namesIn false (← a.asValue))
  | .namesIn, [a, single] => return .names (Usage.namesIn (← single.asValue).holds (← a.asValue))
  | .inProgram, [a] => return .found ((← a.read textOrNone).bind p.find?)
  | .inScope, [a, scope] => do
    let v ← a.asValue
    if isReference v then return .found (← Walk.ofFault (inScopeOf (← scope.asScope) v))
    else return .found none
  | .isOwnFile, [a] => return .truth (← a.read p.isOwnFile)
  | .isUnknownType, [a] => return .truth (p.type? (← a.read (textOr .missingMember))).isNone
  | .isSimple, [a] => do
    match ← a.asVariable with
    | some v => return .truth v.type.isSimple
    | none => throw (.fault .missingMember)
  | .passOn, [m, reads, writes, scope, path, external] => do
    let m ← m.read Value.toMapping
    let use : ParameterUse := { reads := ← reads.asNames, writes := ← writes.asNames }
    let known := (← external.asValue).isNull
    Usage.passOn p (if known then some use else none) (← scope.asScope) (← path.asPath) m
    return .nothing
  | .checkMapping, [m, target, scope, path] => do
    match ← target.asVariable with
    | some target =>
      let m ← m.read Value.toMapping
      Usage.checkMapping p (some target) (← scope.asScope) (← path.asPath) m
      return .nothing
    | none => return .nothing
  | .checkSingle, [m, _, scope, path] => do
    match ← m.asModule with
    | .single info _ =>
      checkMappings p info.parameters (← scope.asScope) (← path.asPath) info.mappings
      return .nothing
    | _ => throw (.fault .missingMember)
  | .checkInstance, [m, scope, path] => do
    match ← m.asModule with
    | .typed info =>
      match p.type? info.typeName with
      | some t => checkMappings p t.parameters (← scope.asScope) (← path.asPath) info.mappings
      | none => pure ()
      return .nothing
    | _ => throw (.fault .missingMember)
  | .reportModule, [m, path] => do
    reportDeclarations false ((← m.asModule).declarations (← path.asPath))
    return .nothing
  | .reportMismatch, [target, source, path] => do
    match ← target.asVariable, ← source.asVariable with
    | some target, some source =>
      report (mismatch target source (← path.asPath))
      return .nothing
    | _, _ => throw (.fault .missingMember)
  | .walkBelow, [ms, scope, path] => do
    walkModules p (Usage.walkType p p.types.length) (← scope.asScope) (← path.asPath)
      (← ms.asModules)
    return .nothing
  | .walkInside, [m, path] => do
    match ← m.asModule with
    | .single info below =>
      let path ← path.asPath
      record p info.scope path (definition info.definition)
      record p info.scope path (code info.code)
      walkModules p (Usage.walkType p p.types.length) info.scope path below
      return .use (ParameterUse.ofMarks (← get).marks info.parameters)
    | _ => throw (.fault .missingMember)
  | .scopeOf, [.whole p] => return .scope (byKey p.locals)
  | .scopeOf, [.type t] => return .scope (byKey t.scope)
  | .scopeOf, [m] => do
    match ← m.asModule with
    | .single info _ => return .scope (byKey info.scope)
    | _ => throw (.fault .missingMember)
  | .walkType, [t, path] => do
    Usage.walkType p p.types.length (← t.asType) (← path.asPath)
    return .nothing
  | .unused, m :: path :: _ => do
    let m ← m.asModule
    let path ← path.asPath
    return .listed (unusedIn (← get).marks path m)
  | .readOnly, m :: path :: _ => do
    let m ← m.asModule
    let path ← path.asPath
    return .listed (readOnlyIn (← get).marks path m)
  | _, _ => throw (.fault .missingMember)

end Probe

end SattLine.Usage
