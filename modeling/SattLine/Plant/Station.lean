import SattLine.Plant.Workstation

/-!
What runs where. A station runs the programs and libraries of its configuration, and the
libraries that its programs depend on. Seen from the other side, a component has the stations
whose configurations name it.
-/

namespace SattLine.Plant

structure Station where
  id : String
  kind : String
  configuration : String
  programs : List String
  libraries : List String
  deriving DecidableEq, Repr

variable (components : List Component) (configurations : List Configuration)

/-- The configuration of a name, whatever its letter case; the last one counts. -/
def configuration? (name : String) : Option Configuration :=
  configurations.reverse.find? fun c => Text.sameName c.name name

/-- The libraries that a program depends on: its dependencies that are components and no
programs. -/
def librariesOf (program : String) : List String :=
  match component? components program with
  | none => []
  | some c => c.dependencies.filter fun name =>
    (component? components name).any fun library => library.kind != programKind

/-- Adds a library, unless it is there in some letter case. -/
def addLibrary (libraries : List String) (name : String) : List String :=
  if libraries.any fun library => Text.sameName library name then libraries
  else libraries ++ [name]

def addLibraries (libraries names : List String) : List String :=
  names.foldl addLibrary libraries

/-- What a station runs under its configuration. -/
def station (name id : String) : Station :=
  match configuration? configurations name with
  | none => ⟨id, stationKind id, name, [], []⟩
  | some c =>
    let needed := (c.programNames.flatMap (librariesOf components)).eraseDups
    ⟨id, stationKind id, name, Text.sorted c.programNames,
      Text.sorted (addLibraries c.libraryNames needed)⟩

def stations : List Station :=
  assignments.flatMap fun a => a.stations.map (station components configurations a.configuration)

def controllersText (names : List String) : String :=
  match Text.sortedSet (names.filter fun name => name ∉ ["", notApplicable, noController]) with
  | [] => noController
  | names => ", ".intercalate names

def controllersServing (programs : List String) : String :=
  controllersText ((programs.filterMap (component? components)).map Component.controller)

def unitsServed (programs : List String) : String :=
  unitsText ((programs.filterMap (component? components)).flatMap fun c => readUnits c.units)

/-- A name that a configuration gives to a station. -/
structure Mention where
  name : String
  stations : List String

/-- The programs and libraries that configurations name, by the assignments of stations. -/
def mentions : List Mention :=
  assignments.flatMap fun a =>
    (configurations.filter fun c => Text.sameName c.name a.configuration).flatMap fun c =>
      (c.programNames ++ c.libraryNames).map (⟨·, a.stations⟩)

/-- A component with the stations that a change of it concerns. -/
structure Impact where
  name : String
  stations : List String
  deriving DecidableEq, Repr

/-- The stations of every component that a configuration names, in the order of the names in
small letters. A name is spelled as it was named last. -/
def impacts : List Impact :=
  let all := mentions configurations
  (Text.sortedSet (all.map fun m => Text.lower m.name)).map fun key =>
    let same := all.filter fun m => Text.lower m.name == key
    ⟨((same.getLast?).map Mention.name).getD key, Text.sortedSet (same.flatMap Mention.stations)⟩

end SattLine.Plant
