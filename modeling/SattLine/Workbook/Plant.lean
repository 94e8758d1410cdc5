import SattLine.Plant.Station
import SattLine.Workbook.Sheet

/-!
The workbook of a plant: its components and what they depend on, its stations and what they
run, its configurations, and a sheet that answers which stations a change concerns.
-/

namespace SattLine.Workbook

open Plant

def text (s : String) : Content := .text s

def number (n : Nat) : Content := .number n

def leading (row : Nat) (s : String) : Cell := ⟨row, 1, .text s⟩

/-- Rows with a running number in front. -/
def numbered (rows : List (List Content)) : List (List Content) :=
  rows.mapIdx fun i row => number (i + 1) :: row

section Sheets

variable (components : List Component) (configurations : List Plant.Configuration)

def componentSheet : Sheet :=
  let headings := texts ["ID", "Component_ID", "IP_Address", "SLC_Number", "Units_Served", "Component_Type"]
  let rows := components.map fun c => texts [c.name, c.address, c.controller, c.units, c.kind]
  Sheet.fitted
    { title := "System Components"
      cells := rowsFrom 1 (headings :: numbered rows)
      tables := tableOf "SystemComponents" 6 1 rows.length }

/-- The kind of the last component of a name. -/
def kindOf (name : String) : String :=
  ((component? components.reverse name).map Component.kind).getD "Unknown"

def dependencySheet : Sheet :=
  let headings := texts ["Dependency_ID", "Component_ID", "Component_Type", "Library_Name", "Library_Type"]
  let rows := components.flatMap fun c => c.dependencies.map fun name =>
    texts [c.name, kindOf components c.name, name, kindOf components name]
  Sheet.fitted
    { title := "Library Dependencies"
      cells := rowsFrom 1 (headings :: numbered rows)
      tables := tableOf "LibraryDependencies" 5 1 rows.length }

def dashboardSheet : Sheet :=
  { title := "Dashboard"
    cells := [leading 1 "SattLine Configuration Dashboard"]
    merged := ["A1:H1"] }

def namesOr (none : String) (names : List String) : String :=
  if names.isEmpty then none else ", ".intercalate names

def stationRow (s : Station) : List Content :=
  texts [s.id, s.kind, roomOf s.id, s.configuration, controllersServing components s.programs,
    namesOr "No programs" s.programs, namesOr "No libraries" s.libraries,
    unitsServed components s.programs]

def stationSheet : Sheet :=
  let headings := texts ["Station_ID", "Station_Type", "Physical_Location", "Configuration_File",
    "SLC_Number", "Programs", "Libraries", "Units_Served", "IP_Address"]
  let sorted := (stations components configurations).mergeSort fun a b => !(b.id < a.id)
  { title := "Station Configuration"
    cells := leading 1 "🖥️ Workstation Configuration Overview" ::
      rowsFrom 3 (headings :: sorted.map (stationRow components))
    merged := ["A1:I1"]
    widths := widthsFrom [20, 25, 25, 25, 25, 40, 40, 50, 15]
    tables := tableOf "StationConfiguration" 9 3 sorted.length }

/-- A sheet on the configurations under its title; without configurations it says so. -/
def configurationSheet (title heading merged table : String) (headings : List String)
    (widths : List Nat) (row : Plant.Configuration → List (List Content))
    (configurations : List Plant.Configuration) : Sheet :=
  if configurations.isEmpty then
    { title := title
      cells := [leading 1 heading, leading 3 "No configuration files found or parsing failed"]
      merged := [merged] }
  else
    let rows := (configurations.mergeSort fun a b => !(b.name < a.name)).flatMap row
    { title := title
      cells := leading 1 heading :: rowsFrom 3 (texts headings :: rows)
      merged := [merged]
      widths := widthsFrom widths
      tables := tableOf table headings.length 3 rows.length }

def summaryRow (c : Plant.Configuration) : List Content :=
  texts [c.name, c.version, c.date, c.mainProgram] ++
    [number c.programs.length, number c.libraries.length]

def summarySheet : Sheet :=
  configurationSheet "Configuration Summary" "📊 Configuration Files Summary" "A1:F1"
    "ConfigurationSummary"
    ["Configuration_Name", "Version", "Date", "Main_Program", "Total_Programs", "Total_Libraries"]
    [25, 12, 25, 25, 15, 15] (fun c => [summaryRow c]) configurations

def detailRow (c : Plant.Configuration) (kind name directory main : String) : List Content :=
  texts [c.name, kind, name, directory, main, c.version, c.date] ++
    [number c.programs.length, number c.libraries.length]

def detailRows (c : Plant.Configuration) : List (List Content) :=
  (c.programs.map fun p => detailRow c "Program" p.name p.directory (if p.isMain then "Yes" else "No")) ++
    c.libraries.map fun l => detailRow c "Library" l.name l.directory "N/A"

def detailSheet : Sheet :=
  configurationSheet "Configuration Details" "📋 Configuration File Details" "A1:I1"
    "ConfigurationDetails"
    ["Configuration_Name", "Component_Type", "Component_Name", "Directory", "Main_Program", "Version",
      "Date", "Total_Programs", "Total_Libraries"]
    [25, 15, 30, 40, 12, 12, 25, 15, 15] detailRows configurations

/-! The sheet of impacts has ten rows to choose components in, and a hidden table of stations. -/

def choiceRows : List Nat := (List.range 10).map (· + 7)

def choiceCells (row : Nat) : List Cell :=
  let cell := "B" ++ toString row
  [leading row ("Component " ++ toString (row - 6) ++ ":"),
    ⟨row, 5, .text ("=IF(" ++ cell ++ "=\"\",\"\",INDEX('System Components'!F:F,MATCH(" ++ cell ++
      ",'System Components'!B:B,0)))")⟩]

/-- The formula that joins the stations of the chosen components. -/
def joinedStations : String :=
  let chosen := choiceRows.map fun row =>
    "IFERROR(VLOOKUP(B" ++ toString row ++ ",J:K,2,FALSE),\"\")"
  "=TEXTJOIN(\", \",TRUE," ++ ",".intercalate chosen ++ ")"

def impactCells (impacts : List Impact) : List Cell :=
  ("Component_Lookup", "Workstations") :: (impacts.map fun i => (i.name, ", ".intercalate i.stations))
    |>.mapIdx (fun i (name, stations) =>
      [⟨i + 1, 10, Content.text name⟩, ⟨i + 1, 11, Content.text stations⟩])
    |>.flatten

def impactSheet : Sheet :=
  { title := "Query Tool"
    cells := [leading 1 "🎯 Change Impact Analysis Tool",
        leading 3 "Select programs/libraries you plan to change to see all impacted stations, units, dependencies, and SLCs",
        leading 5 "📝 SELECT COMPONENTS TO DOWNLOAD (up to 10)",
        leading 19 "🖥️ AFFECTED WORKSTATIONS",
        leading 21 "Workstations:", ⟨21, 2, .text joinedStations⟩] ++
      choiceRows.flatMap choiceCells ++ impactCells (impacts configurations)
    merged := Text.sorted (["A1:H1", "A3:H3", "A5:H5", "A19:H19", "B21:H21"] ++
      choiceRows.map fun row => "B" ++ toString row ++ ":D" ++ toString row)
    widths := widthsFrom [15, 20, 20, 20, 20, 15, 15, 15] ++ [("J", 13), ("K", 13)]
    hidden := ["J", "K"] }

end Sheets

inductive WorkbookError where
  | missingFolders
  | illegalText (cause : IllegalText)

namespace WorkbookError

def message : WorkbookError → String
  | .missingFolders => "Required directories not found"
  | .illegalText _ => ""

end WorkbookError

def ofPlant (store : Store) (root : Location) : Except WorkbookError (List Sheet) :=
  if !isComplete store root then .error .missingFolders
  else
    let components := components store root (controllers store root)
    let configurations := configurations store root
    let sheets := [impactSheet configurations, dashboardSheet, componentSheet components,
      dependencySheet components, stationSheet components configurations,
      summarySheet configurations, detailSheet configurations]
    match sheets.mapM Sheet.finish with
    | .ok sheets => .ok sheets
    | .error cause => .error (.illegalText cause)

def plantRoot : Location :=
  .ofText "C:\\Users\\SQHJ\\OneDrive - Novo Nordisk\\Workspace\\Libs\\GC"

def fileName : String := "SattLine_Configuration.xlsx"

/-- What the command prints, and the sheets that it writes. -/
def command (store : Store) : String × Option (List Sheet) :=
  match ofPlant store plantRoot with
  | .ok sheets =>
    ("✅ Configuration Excel file generated successfully: " ++ fileName, some sheets)
  | .error cause => ("❌ Error: " ++ cause.message, none)

end SattLine.Workbook
