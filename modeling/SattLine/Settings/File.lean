import SattLine.Settings.Basic
import SattLine.Toml.Document

/-!
The file of settings. A text is written between quote marks as it is.
-/

namespace SattLine.Settings

def inQuotes (text : String) : String :=
  "\"" ++ text ++ "\""

def written : Value → String
  | .bool b => if b then "true" else "false"
  | .list items =>
    "[\n" ++ "\n".intercalate (items.map fun v => "  " ++ inQuotes v.plain ++ ",") ++ "\n]"
  | v => inQuotes v.plain

def line (s : Settings) (name : String) : Except Fault String := do
  return name ++ " = " ++ written (← s.get name) ++ "\n"

def banner (title : String) : String :=
  "# ----------------------------\n# " ++ title ++ "\n# ----------------------------\n"

/-- The text of the file. Every setting has to be there. -/
def render (s : Settings) : Except Fault String := do
  let general ← ["root", "mode", "ignore_ABB_lib", "scan_root_only", "debug"].mapM s.line
  let folders ← ["ABB_lib_dir", "program_dir"].mapM s.line
  return banner "General project configuration" ++ String.join general ++ "\n" ++
    banner "Paths" ++ String.join folders ++ "\n" ++ (← s.line "other_lib_dirs")

def parse? (text : String) : Option Settings :=
  (Toml.parse? text).map ofValue

end SattLine.Settings
