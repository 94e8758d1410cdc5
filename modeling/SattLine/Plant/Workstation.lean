import SattLine.Plant.Component

/-!
The workstations of the plant: which configuration each runs, and where it stands.
-/

namespace SattLine.Plant

/-- The stations that run a configuration. -/
structure Assignment where
  configuration : String
  stations : List String
  deriving DecidableEq, Repr

def assignments : List Assignment := [
  ⟨"KaGC_OP_Utilf", ["LOP01", "OP06", "OP07"]⟩,
  ⟨"KaGC_OP_Procesf", ["OP01", "OP02", "OP03", "OP04", "OP05", "OP10"]⟩,
  ⟨"KaGC_Allf", ["OP11", "OP12", "LOP14"]⟩,
  ⟨"KaGC_Autf", ["PRG01", "PRG02"]⟩,
  ⟨"KaGC_OP_FDf", ["LOP11", "LOP12", "LOP13"]⟩,
  ⟨"KaGC_LOP04", ["LOP04"]⟩,
  ⟨"KaGC_LOP05", ["LOP05"]⟩,
  ⟨"KaGC_LOP08", ["LOP08"]⟩,
  ⟨"KaGC_LOP09", ["LOP09"]⟩,
  ⟨"KaGC_LOP10", ["LOP10"]⟩,
  ⟨"KaGC_LOP17", ["LOP17"]⟩,
  ⟨"KaGC_LOP18", ["LOP18"]⟩,
  ⟨"KaGC_LOP19", ["LOP19"]⟩,
  ⟨"KaGC_OPC01f", ["OPC01"]⟩,
  ⟨"KaGC_OPC02f", ["OPC02"]⟩,
  ⟨"KaGC_OPC03f", ["OPC03"]⟩,
  ⟨"KaGC_OPC04f", ["OPC04"]⟩,
  ⟨"KaGC_OPC05f", ["OPC05"]⟩,
  ⟨"KaGC_OPC06f", ["OPC06"]⟩,
  ⟨"KaGC_OPC07f", ["OPC07"]⟩,
  ⟨"KaGC_OPC08f", ["OPC08"]⟩,
  ⟨"KaGC_OPC09f", ["OPC09"]⟩,
  ⟨"KaGC_OPC10f", ["OPC10"]⟩,
  ⟨"KaGC_OPC11f", ["OPC11"]⟩,
  ⟨"SGDKKAGC01f", ["Kurver"]⟩,
  ⟨"KaGC_JN01f", ["Journal Server 1 Primær"]⟩,
  ⟨"KaGC_JN02f", ["Journal Server 1 Sekundær"]⟩,
  ⟨"KaGC_JN0304f", ["Journal Server 2 Primær", "Journal Server 2 Sekundær"]⟩]

def rooms : List (String × List String) := [
  ("Control Room 1", ["LOP01"]),
  ("Control Room 2", ["OP06", "OP07"]),
  ("Main Control Room", ["OP01", "OP02", "OP03", "OP04", "OP05", "OP10"]),
  ("Control Room 3", ["OP11", "OP12"]),
  ("Local Panel Area", ["LOP14"]),
  ("Engineering Office", ["PRG01", "PRG02"]),
  ("Field Station Area 1", ["LOP11", "LOP12", "LOP13"]),
  ("Field Station Area 2", ["LOP04", "LOP05"]),
  ("Field Station Area 3", ["LOP08", "LOP09", "LOP10"]),
  ("Field Station Area 4", ["LOP17", "LOP18", "LOP19"]),
  ("Server Room", ["OPC01", "OPC02", "OPC03", "OPC04", "OPC05", "OPC06", "OPC07", "OPC08", "OPC09",
    "OPC10", "OPC11", "Journal Server 1 Primær", "Journal Server 1 Sekundær",
    "Journal Server 2 Primær", "Journal Server 2 Sekundær"]),
  ("Curve Management Room", ["Kurver"])]

/-- The stations that run the configuration of a name, whatever its letter case. -/
def stationsFor (name : String) : List String :=
  let name := plainComponentName name
  ((assignments.find? fun a => Text.sameName a.configuration name).map Assignment.stations).getD []

def roomOf (station : String) : String :=
  ((rooms.find? fun room => room.2.contains station).map Prod.fst).getD "Unknown Location"

/-- What a station is, by the start of its name. -/
def stationKind (station : String) : String :=
  if station.startsWith "LOP" then "Local Operator Panel"
  else if station.startsWith "OP" then "Operator Station"
  else if station.startsWith "PRG" then "Programmer Station"
  else if Text.holds station "Journal" then "Journal Server"
  else "Special System"

end SattLine.Plant
