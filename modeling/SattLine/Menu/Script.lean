import SattLine.Menu.Screen

/-!
Dialogues whose input is known beforehand and whose files are a store.
-/

namespace SattLine.Menu

/-- The lines still to be read, the text shown so far and the files. -/
structure Script where
  input : List String := []
  output : String := ""
  store : Store := {}

namespace Script

def say (text : String) : StateM Script Unit :=
  modify fun s => { s with output := s.output ++ text }

def next? : StateM Script (Option String) := do
  let s ← get
  match s.input with
  | [] => return none
  | line :: rest =>
    set { s with input := rest }
    return some line

/-- Writes a file where no folder stands. -/
def write (location : Location) (text : String) : StateM Script (Except ReadError Unit) := do
  let s ← get
  match s.store.look location with
  | .folder => return .error (.isFolder location)
  | .absent .overlong => return .error (.absent .overlong location)
  | _ =>
    let place := Location.settle (s.store.start location) location.parts
    set { s with store := s.store.write place text.toUTF8 }
    return .ok ()

/-- The host that follows a script. Clearing the screen leaves no trace. -/
def host : Host (StateM Script) where
  clear := pure ()
  say := say
  ask text := do
    say text
    next?
  look location := return (← get).store.look location
  write := write
  survey _ := return (← get).store

/-- Has a dialogue follow the script: how it ended, the settings after it and what is left of
the script. -/
def follow (script : Script) (settings : Settings) (dialogue : Dialogue (StateM Script) α) :
    (Except Stop α × Settings) × Script :=
  ((dialogue.run).run settings).run script

/-- More turns than a script has lines. -/
def limit (script : Script) : Nat :=
  script.input.length + 2

end Script

def session (script : Script) (file : Location) : Dialogue (StateM Script) Unit := do
  let screen ← start Script.host file
  let _ ← runUntil Script.host file (· == .closed) script.limit screen

/-- A visit to the menu of settings; `true` if changes are left unsaved. -/
def visitSettings (script : Script) (file : Location) : Dialogue (StateM Script) Bool := do
  let screen ← runUntil Script.host file Screen.isMain script.limit (.settings false false)
  return screen == .main true

def visitOutputs (script : Script) (file : Location) : Dialogue (StateM Script) Unit := do
  let _ ← runUntil Script.host file Screen.isMain script.limit (.outputs false)

end SattLine.Menu
