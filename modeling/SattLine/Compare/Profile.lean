import SattLine.Program.OfValue
import SattLine.Text.Order
import SattLine.Value.Shown

/-!
What makes two declarations or two connections the same for a comparison of modules: a profile,
a list of keys. Lists of declarations are compared without regard to their order, so their
profiles are sorted; profiles that cannot be put in order are refused.
-/

namespace SattLine.Compare

/-- A name without blanks around it, in small letters. -/
def plainName (name : String) : String :=
  Text.trim (Text.lower name)

abbrev Profile := List Value.Key

namespace Profile

/-- Profiles are ordered by their first difference. -/
def precedes (a b : Profile) : Bool :=
  Value.Key.areBefore? b a != some true

/-- Whether every two of the profiles can be put in order. -/
def areOrdered : List Profile → Bool
  | [] => true
  | a :: rest => rest.all (fun b => (Value.Key.areBefore? a b).isSome) && areOrdered rest

def sort (profiles : List Profile) : Except Fault (List Profile) :=
  if areOrdered profiles then .ok (profiles.mergeSort precedes) else .error .wrongType

/-- The profiles that lists of values stand for, in order. -/
def ofValues (parts : List (List Value)) : Except Fault (List Profile) := do
  sort (← parts.mapM fun values => values.mapM Value.key)

end Profile

/-- A variable counts by its name, type, attributes and initial value. -/
def variableParts (v : Variable) : List Value :=
  [.text (plainName v.name), .text v.type.text, v.isGlobal, v.const, v.state, v.opsave, v.secure,
    .text v.init.literal]

def variableProfiles (vs : List Variable) : Except Fault (List Profile) :=
  Profile.ofValues (vs.map variableParts)

/-- The name at one end of a connection: the variable of a reference, or the text of anything
else. -/
def endName (v : Value) : Except Fault Value :=
  match v with
  | .dict keys values => .ok ((Value.dict keys values).getOrNull "var_name")
  | v => do return .text (← v.shown)

/-- A connection counts by its two ends, its kind and its literal. An empty source is none. -/
def mappingParts (m : Mapping) : Except Fault (List Value) := do
  let target ← endName m.target
  let source ← if m.source.holds then endName m.source else pure .null
  let target ← target.name
  let source ← if source.holds then do pure (.text (plainName (← source.name))) else pure .null
  return [.text (plainName target), m.sourceType, m.isDuration, m.isGlobal, source,
    .text m.literal.literal]

def mappingProfiles (ms : List Mapping) : Except Fault (List Profile) := do
  Profile.ofValues (← ms.mapM mappingParts)

def variableProfilesOf (v : Value) : Except Fault (List Profile) := do
  let (vs, _) ← ((← v.elements).mapM Value.toVariable).run {}
  variableProfiles vs

def mappingProfilesOf (v : Value) : Except Fault (List Profile) := do
  Profile.ofValues (← (← v.elements).mapM fun m => do mappingParts (← m.toMapping))

end SattLine.Compare
