import SattLine.Program.Basic

/-!
The uses of variables. Each variable has one entry: whether it is read, whether it is written,
and the places of all uses in the order in which they were found.
-/

namespace SattLine

inductive Access where
  | read
  | write
  deriving DecidableEq, Repr

namespace Access

def name : Access → String
  | .read => "read"
  | .write => "write"

def ofName? : String → Option Access
  | "read" => some .read
  | "write" => some .write
  | _ => none

end Access

/-- The names of the modules from the outermost one inwards. -/
abbrev Path := List String

/-- What is known about the uses of one variable. -/
structure Usage where
  read : Bool := false
  written : Bool := false
  places : List (Path × Access) := []
  deriving DecidableEq, Repr, Inhabited

namespace Usage

def note (usage : Usage) (access : Access) (path : Path) : Usage :=
  { read := usage.read || access == .read
    written := usage.written || access == .write
    places := usage.places ++ [(path, access)] }

def isUnused (usage : Usage) : Bool :=
  !(usage.read || usage.written)

def isReadOnly (usage : Usage) : Bool :=
  usage.read && !usage.written

def isWriteOnly (usage : Usage) : Bool :=
  usage.written && !usage.read

end Usage

/-- The uses of all variables by their numbers. -/
structure Marks where
  entries : Array Usage := #[]

namespace Marks

def get (marks : Marks) (v : Variable) : Usage :=
  marks.entries.getD v.id {}

def note (marks : Marks) (v : Variable) (access : Access) (path : Path) : Marks :=
  ⟨marks.entries.modify v.id fun usage => usage.note access path⟩

/-- The number of the next variable to be declared. -/
def next (marks : Marks) : Nat :=
  marks.entries.size

def declare (marks : Marks) (usage : Usage) : Marks :=
  ⟨marks.entries.push usage⟩

end Marks

end SattLine
