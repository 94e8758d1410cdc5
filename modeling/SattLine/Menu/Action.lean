import SattLine.Menu.Host
import SattLine.Settings.File

/-!
What can be done from the menus: reading and writing the settings, checking them, and
analysing the project that they describe.
-/

namespace SattLine.Menu

variable {m : Type → Type} [Monad m]

variable (host : Host m)

def saveSettings (file : Location) : Dialogue m Unit := do
  let text ← ofFault (← get).render
  match ← host.write file text with
  | .ok () => host.print ("✔ Config saved to " ++ file.text)
  | .error cause => throw (.unreadable cause)

/-- Reads the settings from their file. Without a file the initial settings are taken and
written; the answer tells whether that was so. -/
def loadSettings (file : Location) : Dialogue m Bool := do
  match ← host.look file with
  | .absent .overlong => throw (.unreadable (.absent .overlong file))
  | .absent _ =>
    host.print ("⚠ No config found, creating default: " ++ file.text)
    set Settings.initial
    saveSettings host file
    return true
  | .folder => throw (.unreadable (.isFolder file))
  | .file bytes =>
    match String.fromUTF8? bytes with
    | none => throw (.unreadable .notUtf8)
    | some text =>
      match Settings.parse? text with
      | none => throw .malformedSettings
      | some settings =>
        set settings
        return false

/-- The ending of code files in a mode; other modes have none. -/
def codeEnding (mode : Value) : String :=
  ((mode.text?.bind Project.Mode.ofName?).map Project.Mode.codeEnding).getD ""

/-- Whether one of some folders has the code of a root. -/
def rootIn (host : Host m) (root : String) : List Location → Dialogue m Bool
  | [] => return false
  | folder :: rest => do
    if ← host.contains folder then
      let ending := codeEnding (← setting "mode")
      if ← host.contains (folder.child (root ++ ending)) then return true
    rootIn host root rest

def foldersOf (v : Value) : Except Fault (List Location) := do
  (← v.elements).mapM Value.location

/-- Whether the folders of the project have the code of a root. -/
def rootExists (root : Value) : Dialogue m Bool := do
  let program ← ofFault (← setting "program_dir").location
  let libraries ← ofFault (foldersOf (← setting "other_lib_dirs"))
  rootIn host root.plain (program :: libraries)

def checkFolder (name : String) : Dialogue m Bool := do
  let folder ← ofFault (((← get).get? name).getD (.text "")).location
  if ← host.contains folder then
    host.print ("✔ " ++ name ++ ": " ++ folder.text)
    return true
  else
    host.print ("❌ " ++ name ++ " does not exist: " ++ folder.text)
    return false

def checkLibrary (v : Value) : Dialogue m Unit := do
  let folder ← ofFault v.location
  if ← host.contains folder then host.print ("✔ other_lib_dirs: " ++ folder.text)
  else host.print ("⚠ other_lib_dirs entry missing: " ++ folder.text)

def checkRoot : Dialogue m Bool := do
  let root := (← get).get? "root"
  if ← rootExists host (root.getD (.text "")) then
    host.print ("✔ Root program/library found: " ++ (← setting "root").plain)
    return true
  else
    host.print ("❌ Root program/library not found: " ++ (root.getD .null).plain)
    return false

/-- Checks the settings and reports on each; `true` if all is well. Missing libraries are no
failure. -/
def selfCheck : Dialogue m Bool := do
  host.print "\n--- Self-check diagnostics ---"
  host.print "✔ Python <version>"
  let settings ← get
  let missing := Settings.names.filter fun name => (settings.get? name).isNone
  missing.forM fun name => host.print ("❌ Missing config key: " ++ name)
  let programThere ← checkFolder host "program_dir"
  let vendorThere ← checkFolder host "ABB_lib_dir"
  let libraries ← ofFault (((← get).get? "other_lib_dirs").getD (.list [])).elements
  libraries.forM (checkLibrary host)
  let rootThere ← checkRoot host
  host.print "------------------------------\n"
  return missing.isEmpty && programThere && vendorThere && rootThere

def showSettings : Dialogue m Unit := do
  host.print "\n--- Current configuration ---"
  ["root", "mode", "ignore_ABB_lib", "scan_root_only", "debug", "program_dir",
      "ABB_lib_dir"].forM fun name => do
    host.print (Text.padRight 16 name ++ ": " ++ (← setting name).plain)
  host.print "other_lib_dirs:"
  let libraries ← ofFault (← setting "other_lib_dirs").elements
  libraries.zipIdx.forM fun (v, i) => host.print ("  " ++ toString (i + 1) ++ ". " ++ v.plain)
  host.print "-----------------------------\n"

def loader : Dialogue m Project.Loader := do
  let program ← ofFault (← setting "program_dir").location
  let libraries ← ofFault (foldersOf (← setting "other_lib_dirs"))
  let vendor ← ofFault (← setting "ABB_lib_dir").location
  match (← setting "mode").text?.bind Project.Mode.ofName? with
  | none => throw (.fault .badValue)
  | some mode =>
    let rootOnly := (← setting "scan_root_only").holds
    let ignoreVendor := (← setting "ignore_ABB_lib").holds
    let _ ← setting "debug"
    return ⟨program, libraries, vendor, mode, rootOnly, ignoreVendor, Build.program⟩

/-- The name of the root program. Only a project that is loaded without dependencies can have a
root that is no text, and it has to be a simple value. -/
def rootName (rootOnly : Bool) (root : Value) : Except Fault String :=
  match root, root.text? with
  | _, some name => .ok name
  | .list _, none | .dict _ _, none => .error (if rootOnly then .wrongType else .missingMember)
  | v, none => if rootOnly then .ok v.plain else .error .missingMember

/-- A project with the definitions of all its programs. -/
structure Loaded where
  picture : Picture
  graph : Project.Graph
  marks : Marks

def loadProject : Dialogue m Loaded := do
  let loader ← loader
  let root ← setting "root"
  let name ← ofFault (rootName loader.rootOnly root)
  let store ← host.survey (loader.vendorFolder :: loader.folders)
  match (loader.resolve store {} name false).1 with
  | .error cause => throw (.notLoaded cause)
  | .ok (graph, marks) =>
    match graph.find? name with
    | none => throw (.notParsed name graph)
    | some p => return ⟨graph.merge p, graph, marks⟩

def runAnalysis : Dialogue m Unit := do
  let loaded ← loadProject host
  match (Usage.analyze loaded.picture loaded.marks).1 with
  | .error problem => throw (.notAnalyzed problem)
  | .ok issues =>
    host.print (Usage.summary loaded.picture.header.name issues)
    host.pause

end SattLine.Menu
