import SattLine.Plant.Station
import SattLine.Value.Key

/-!
Questions on a plant whose components, controllers or configurations are given as values. A
value that does not have the shape which a question needs is a fault, but only where it is looked
at.
-/

namespace SattLine.Plant

namespace Component

def toValue (c : Component) : Value :=
  .element .component [.text c.name, .text c.kind, .text c.address, .text c.controller,
    .text c.units, .list (c.dependencies.map .text)]

/-- What the stations of a plant need to know of a component. -/
def ofValue (v : Value) : Except Fault Component := do
  let text (name : String) : Except Fault String := do
    return ((← v.field name).text?).getD ""
  let name ← (← v.field "name").name
  let dependencies ← (← (← v.field "dependencies").elements).mapM Value.name
  return ⟨name, ← text "type", ← text "ip_address", ← text "slc", ← text "units", dependencies⟩

end Component

def stationsForValue (name : Value) : Except Fault (List String) := do
  return stationsFor (← name.name)

/-- The room of a station; only texts name stations. -/
def roomOfValue (station : Value) : Except Fault String := do
  let _ ← station.key
  return roomOf ((station.text?).getD "")

def stationKindOfValue (station : Value) : Except Fault String := do
  return stationKind (← station.name)

/-- Whether both brackets are among the items of a value. -/
def holdsBrackets (v : Value) : Except Fault Bool := do
  let texts := (← v.elements).filterMap Value.text?
  return texts.contains "(" && texts.contains ")"

/-- The names of units for the eye. What is no text is kept, unless it looks like one. -/
def unitsShown (v : Value) : Except Fault Value := do
  match v.text? with
  | some text => return .text (unitsForDisplay text)
  | none =>
    if !v.holds then return .text noUnits
    else if ← holdsBrackets v then throw .missingMember
    else return v

def unitsIn (v : Value) : Except Fault (List String) := do
  match v.text? with
  | some text => return readUnits text
  | none =>
    if !v.holds then return []
    else if ← holdsBrackets v then throw .missingMember
    else return []

/-- The first of some components that has a name, whatever its letter case. -/
def givenComponent? (name : Value) : List Value → Except Fault (Option Value)
  | [] => .ok none
  | c :: rest => do
    let own ← (← c.field "name").name
    if Text.sameName own (← name.name) then return some c else givenComponent? name rest

/-- The components of the programs that a configuration names. -/
def serving (configuration components : Value) : Except Fault (List Value) := do
  let programs ← (← configuration.entry "programs").elements
  let found ← programs.mapM fun name => do givenComponent? name (← components.elements)
  return found.filterMap id

def controllersOfValue (configuration components : Value) : Except Fault String := do
  let names ← (← serving configuration components).mapM fun c => c.field "slc"
  match (names.filter Value.holds).mapM Value.text? with
  | some names => return controllersText names
  | none => throw .wrongType

def unitsOfValue (configuration components : Value) : Except Fault String := do
  let units ← (← serving configuration components).mapM fun c => do unitsIn (← c.field "units")
  return unitsText units.flatten

def isSameAddress (a b : Value) : Bool :=
  match a.key?, b.key? with
  | some a, some b => a == b
  | _, _ => false

/-- The controller at an address, among names with their addresses. -/
def controllerAmong (address : Value) : List (Value × Value) → Except Fault String
  | [] => .ok noController
  | (name, own) :: rest => do
    if !isSameAddress own address then controllerAmong address rest
    else
      match (Controller.mk (← name.name) "").number? with
      | some number => return "SLC" ++ number
      | none => controllerAmong address rest

/-- The controller at an address, by a dictionary of names and addresses. It is not looked at if
there is no address. -/
def controllerAtValue (address controllers : Value) : Except Fault String :=
  if (address.text?).any isNoAddress then .ok noController
  else
    match controllers with
    | .dict names addresses => controllerAmong address (names.zip addresses)
    | _ => .error .missingMember

/-- A program has the controller at its address. -/
def Component.withController (controllers : Value) (c : Component) : Except Fault Component := do
  return { c with controller := ← controllerAtValue (.text c.address) controllers }

/-- The component of a list file, of the kind that a value states. -/
def componentOfValue (store : Store) (controllers kind isProgram : Value) (file : Location) :
    Except Fault Value := do
  let draft := component store [] programKind isProgram.holds file
  let found ← if isProgram.holds then draft.withController controllers else pure draft
  return found.toValue.setField "type" kind

def componentsOfValue (store : Store) (root : Location) (controllers : Value) :
    Except Fault (List Component) :=
  (components store root []).mapM fun c =>
    if c.kind == programKind then c.withController controllers else .ok c

/-- The stations of the plant. Without a configuration that names programs no component is looked
at. -/
def stationsOfValue (configurations : List Configuration) (components : Value) :
    Except Fault (List Station) := do
  let isNeeded := assignments.any fun a =>
    (configuration? configurations a.configuration).any fun c => !c.programs.isEmpty
  if !isNeeded then return stations [] configurations
  else return stations (← (← components.elements).mapM Component.ofValue) configurations

end SattLine.Plant
