/-!
The two states in which a project is kept: official files and drafts.
-/

namespace SattLine.Project

inductive Mode where
  | official
  | draft
  deriving DecidableEq, Repr

namespace Mode

def name : Mode → String
  | .official => "official"
  | .draft => "draft"

def ofName? : String → Option Mode
  | "official" => some .official
  | "draft" => some .draft
  | _ => none

theorem ofName?_name (mode : Mode) : ofName? mode.name = some mode := by
  cases mode <;> rfl

/-- The ending of program files. -/
def codeEnding : Mode → String
  | .official => ".x"
  | .draft => ".s"

/-- The ending of the files that list what a program depends on. -/
def listEnding : Mode → String
  | .official => ".z"
  | .draft => ".l"

end Mode

end SattLine.Project
