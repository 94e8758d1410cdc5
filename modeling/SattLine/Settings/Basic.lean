import SattLine.Store.Location
import SattLine.Value.Shown

/-!
The settings of the program: what is analysed, in which mode, and where the files are. They are
read from a file that anyone may edit, so a setting can be missing or of any kind.
-/

namespace SattLine

/-- The settings by name, in the order in which they were entered. -/
structure Settings where
  entries : List (String × Value) := []

namespace Settings

def initial : Settings where
  entries := [("root", .text ""), ("mode", .text "official"), ("ignore_ABB_lib", .bool false),
    ("scan_root_only", .bool false), ("debug", .bool false), ("program_dir", .text ""),
    ("ABB_lib_dir", .text ""), ("other_lib_dirs", .list [])]

def names : List String :=
  initial.entries.map Prod.fst

def get? (s : Settings) (name : String) : Option Value :=
  s.entries.lookup name

def get (s : Settings) (name : String) : Except Fault Value :=
  match s.get? name with
  | some v => .ok v
  | none => .error .missingKey

/-- Replaces a setting in its place, or enters it at the end. -/
def putIn (name : String) (value : Value) : List (String × Value) → List (String × Value)
  | [] => [(name, value)]
  | (key, old) :: rest =>
    if key == name then (key, value) :: rest else (key, old) :: putIn name value rest

def put (s : Settings) (name : String) (value : Value) : Settings :=
  ⟨putIn name value s.entries⟩

def ofValue : Value → Settings
  | .dict keys values => ⟨(keys.zip values).filterMap fun (key, v) => key.text?.map (·, v)⟩
  | _ => {}

def toValue (s : Settings) : Value :=
  Value.ofEntries s.entries

def isDetailed (s : Settings) : Bool :=
  (s.get? "debug").any Value.holds

end Settings

namespace Value

def location (v : Value) : Except Fault Location :=
  match v.text? with
  | some s => .ok (.ofText s)
  | none => .error .wrongType

end Value

end SattLine
