import SattLine.Project.Loader
import SattLine.Settings.Basic
import SattLine.Usage.Report

/-!
What the menus need from the machine on which they run, and how a dialogue ends.
-/

namespace SattLine.Menu

/-- A screen, a keyboard and a file store. -/
structure Host (m : Type → Type) where
  clear : m Unit
  say : String → m Unit
  /-- Shows a text and reads a line; at the end of the input there is none. -/
  ask : String → m (Option String)
  look : Location → m Entry
  write : Location → String → m (Except ReadError Unit)
  /-- The files in some folders, as they are now. -/
  survey : List Location → m Store

inductive Stop where
  | endOfInput
  | fault (f : Fault)
  | unreadable (cause : ReadError)
  /-- The file of settings is no TOML document. -/
  | malformedSettings
  | notLoaded (cause : Project.LoadError)
  /-- The root program is not among the programs that were loaded. -/
  | notParsed (root : String) (graph : Project.Graph)
  | notAnalyzed (problem : Usage.Problem)

def listed (texts : List String) : String :=
  "[" ++ ", ".intercalate (texts.map Text.quoted) ++ "]"

namespace Stop

def message : Stop → Option String
  | .notParsed root graph =>
    some ("Root program '" ++ root ++ "' not parsed.\nResolved: " ++
      listed (graph.programs.map Prod.fst) ++ "\nMissing: " ++
      listed (graph.missing.map Project.Missing.text))
  | .notAnalyzed problem => problem.message
  | _ => none

end Stop

/-- A dialogue: it may break off, and it keeps the settings also then. -/
abbrev Dialogue (m : Type → Type) := ExceptT Stop (StateT Settings m)

variable {m : Type → Type} [Monad m]

namespace Host

def print (host : Host m) (text : String) : Dialogue m Unit :=
  host.say (text ++ "\n")

def input (host : Host m) (text : String) : Dialogue m String := do
  match ← host.ask text with
  | some line => return line
  | none => throw .endOfInput

def pause (host : Host m) : Dialogue m Unit := do
  let _ ← host.input "\nPress Enter to continue..."

/-- Asks for a yes; anything else is a no. -/
def confirm (host : Host m) (text : String) : Dialogue m Bool := do
  let answer := Text.lower (Text.trim (← host.input (text ++ " [y/N]: ")))
  return answer == "y" || answer == "yes"

def prompt (host : Host m) (text : String) : Dialogue m String := do
  return Text.trim (← host.input (text ++ ": "))

/-- Asks for a new value; an empty answer keeps the old one, if there is one. -/
def promptFor (host : Host m) (text : String) (old : Value) : Dialogue m Value := do
  match old with
  | .null => return .text (← host.prompt text)
  | old =>
    let answer := Text.trim (← host.input (text ++ " [" ++ old.plain ++ "]: "))
    return if answer == "" then old else .text answer

def choice (host : Host m) : Dialogue m String := do
  return Text.lower (Text.trim (← host.input "> "))

def contains (host : Host m) (location : Location) : Dialogue m Bool := do
  match ← host.look location with
  | .absent .overlong => throw (.unreadable (.absent .overlong location))
  | entry => return entry.isThere

end Host

/-- Goes on with a result, or breaks off at a fault. -/
def ofFault (result : Except Fault α) : Dialogue m α :=
  match result with
  | .ok a => return a
  | .error f => throw (.fault f)

def setting (name : String) : Dialogue m Value := do
  ofFault ((← get).get name)

def change (name : String) (value : Value) : Dialogue m Unit :=
  modify fun s => s.put name value

end SattLine.Menu
