import SattLine.Menu.Action

/-!
The screens of the program and the turns on them. A turn shows a screen, reads a choice and
leads to the next screen; every turn on an open screen reads at least one line.
-/

namespace SattLine.Menu

/-- What is on the screen. Unsaved changes are remembered apart for the visit to the settings
and for the time before it. -/
inductive Screen where
  | main (unsaved : Bool)
  | outputs (unsaved : Bool)
  | settings (unsavedBefore unsaved : Bool)
  | closed
  deriving DecidableEq, Repr

def Screen.isMain : Screen → Bool
  | .main _ => true
  | _ => false

variable {m : Type → Type} [Monad m]

def outputsText : String :=
  "\n--- Dump outputs ---\n1) Dump parse tree\n2) Dump AST\n3) Dump dependency graph\n" ++
  "4) Dump variable report\nb) Back\n"

/-- The question before an output is written. -/
def outputQuestion? : String → Option String
  | "1" => some "Dump parse tree?"
  | "2" => some "Dump AST?"
  | "3" => some "Dump dependency graph?"
  | "4" => some "Dump variable report?"
  | _ => none

variable (host : Host m)

/-- A turn in the menu of outputs; `true` to stay there. The project is loaded before the choice
is looked at. None of the outputs can be written. -/
def outputsTurn : Dialogue m Bool := do
  host.clear
  host.print outputsText
  let choice ← host.choice
  if choice == "b" then return false
  let _ ← loadProject host
  match outputQuestion? choice with
  | some question => if ← host.confirm question then throw (.fault .missingMember)
  | none => pure ()
  host.print "Invalid choice."
  return true

def settingsText : String :=
  "\n--- Edit Configuration ---\n1) Change Root program/library to analyze\n" ++
  "2) Toggle Mode (official/draft)\n3) Toggle ignore_ABB_lib\n4) Toggle scan_root_only\n" ++
  "5) Toggle debug\n6) Change Program_dir\n7) Change ABB_lib_dir\n" ++
  "8) Add/remove other_lib_dirs\n9) Save config\nb) Back\n"

/-- Changes the root to one that is there; `true` if it was changed. -/
def changeRoot : Dialogue m Bool := do
  let root ← host.promptFor "New root program/library" (← setting "root")
  if !(← rootExists host root) then
    host.print "❌ Root not found in configured directories"
    host.pause
    return false
  else if ← host.confirm ("Change root to '" ++ root.plain ++ "'?") then
    change "root" root
    return true
  else return false

def changeMode : Dialogue m Bool := do
  let mode := if (← setting "mode").text? == some "official" then "draft" else "official"
  if ← host.confirm ("Switch mode to '" ++ mode ++ "'?") then
    change "mode" (.text mode)
    return true
  else return false

def toggle (name : String) : Dialogue m Bool := do
  if ← host.confirm ("Toggle " ++ name ++ "?") then
    change name (.bool !(← setting name).holds)
    return true
  else return false

def changeFolder (name : String) : Dialogue m Bool := do
  let folder ← host.promptFor ("New " ++ name) (← setting name)
  if ← host.confirm ("Change " ++ name ++ "?") then
    change name folder
    return true
  else return false

/-- Takes the entry with a number, counted from one, out of a list; `none` if there is no such
entry. -/
def removeAt? (number : Int) : Value → Except Fault (Option Value)
  | .list items =>
    .ok (if 0 < number ∧ number ≤ items.length then some (.list (items.eraseIdx (number - 1).toNat))
      else none)
  | .dict keys _ =>
    if 0 < number ∧ number ≤ keys.length then .error .missingKey else .ok none
  | v => do
    let items ← v.elements
    if 0 < number ∧ number ≤ items.length then .error .missingMember else .ok none

def changeLibraries : Dialogue m Bool := do
  let name := "other_lib_dirs"
  let libraries ← setting name
  host.print "\nCurrent other_lib_dirs:"
  let items ← ofFault libraries.elements
  items.zipIdx.forM fun (v, i) => host.print (toString (i + 1) ++ ". " ++ v.plain)
  if ← host.confirm "Add new entry?" then
    match libraries with
    | .list items =>
      change name (.list (items ++ [.text (← host.prompt "Path")]))
      return true
    | _ => throw (.fault .missingMember)
  else if ← host.confirm "Remove entry?" then
    match Number.readInt? (← host.prompt "Index") with
    | none => throw (.fault .badValue)
    | some number =>
      match ← ofFault (removeAt? number libraries) with
      | some rest =>
        change name rest
        return true
      | none => return false
  else return false

/-- A turn in the menu of settings: what is unsaved after it, or nothing to go back. -/
def settingsTurn (file : Location) (unsaved : Bool) : Dialogue m (Option Bool) := do
  host.clear
  showSettings host
  host.print settingsText
  match ← host.choice with
  | "b" => return none
  | "1" => return some ((← changeRoot host) || unsaved)
  | "2" => return some ((← changeMode host) || unsaved)
  | "3" => return some ((← toggle host "ignore_ABB_lib") || unsaved)
  | "4" => return some ((← toggle host "scan_root_only") || unsaved)
  | "5" => return some ((← toggle host "debug") || unsaved)
  | "6" => return some ((← changeFolder host "program_dir") || unsaved)
  | "7" => return some ((← changeFolder host "ABB_lib_dir") || unsaved)
  | "8" => return some ((← changeLibraries host) || unsaved)
  | "9" =>
    if ← host.confirm "Save config to disk?" then
      saveSettings host file
      return some false
    else return some unsaved
  | _ =>
    host.print "Invalid choice."
    return some unsaved

def mainText : String :=
  "\nHow to use SattLint\n------------------\n" ++
  "• Navigate using the number keys shown in each menu\n" ++
  "• Press Enter to confirm a selection\n" ++
  "• Changes are NOT saved until you choose \"Save config\"\n" ++
  "• Use \"Run analysis\" to analyze the configured root program\n" ++
  "• Use \"Dump outputs\" to inspect parse trees, ASTs, etc.\n" ++
  "• Use \"Edit config\" to change settings\n" ++
  "• Use \"Self-check\" to check if the config is OK\n" ++
  "• Press 'q' at any time in the main menu to quit\n" ++
  "\n=== SattLint ===\n1) Run analysis\n2) Dump outputs\n3) Edit config\n" ++
  "4) Self-check diagnostics\nq) Quit\n"

/-- Leaves the program. Only unsaved changes are asked about. -/
def quit (file : Location) (unsaved : Bool) : Dialogue m Unit := do
  if unsaved then
    if ← host.confirm "Unsaved config changes. Save before quitting?" then
      saveSettings host file
  host.print "Bye."

def mainTurn (file : Location) (unsaved : Bool) : Dialogue m Screen := do
  host.clear
  host.print mainText
  match ← host.choice with
  | "1" =>
    if ← host.confirm "Run analysis?" then runAnalysis host
    return .main unsaved
  | "2" => return .outputs unsaved
  | "3" => return .settings unsaved false
  | "4" =>
    host.clear
    let _ ← selfCheck host
    host.pause
    return .main unsaved
  | "q" =>
    quit host file unsaved
    return .closed
  | _ =>
    host.print "Invalid choice."
    return .main unsaved

def turn (file : Location) : Screen → Dialogue m Screen
  | .main unsaved => mainTurn host file unsaved
  | .outputs unsaved => do
    return if ← outputsTurn host then .outputs unsaved else .main unsaved
  | .settings unsavedBefore unsaved => do
    match ← settingsTurn host file unsaved with
    | some unsaved => return .settings unsavedBefore unsaved
    | none => return .main (unsavedBefore || unsaved)
  | .closed => return .closed

/-- The first screen, after the settings have been read and checked. -/
def start (file : Location) : Dialogue m Screen := do
  if ← loadSettings host file then
    host.print "⚠ Default config created. Please edit configuration before running analysis."
    host.pause
    return .main false
  else if ← selfCheck host then return .main false
  else if ← host.confirm "Self-check failed. Continue?" then return .main false
  else return .closed

/-- Takes turns until a screen is reached, a limited number of times. -/
def runUntil (host : Host m) (file : Location) (reached : Screen → Bool) :
    Nat → Screen → Dialogue m Screen
  | 0, screen => return screen
  | limit + 1, screen => do
    if reached screen then return screen
    else runUntil host file reached limit (← turn host file screen)

end SattLine.Menu
