import SattLine.Text.Split

/-!
Names of files: the parts between slashes, and the ending after the last dot.
-/

namespace SattLine.Text

/-- The parts of a path; empty parts and single dots do not count. -/
def pathParts (path : String) : List String :=
  (splitAtChar '/' path).filter fun part => part != "" && part != "."

def fileName (path : String) : String :=
  ((pathParts path).getLast?).getD ""

/-- The place of the last dot, if it is neither the first nor the last character. -/
def endingStart? (name : List Char) : Option Nat :=
  let after := (name.reverse.takeWhile (· != '.')).length
  if after == 0 || name.length ≤ after + 1 then none else some (name.length - after - 1)

def fileStem (path : String) : String :=
  let name := (fileName path).toList
  match endingStart? name with
  | some start => String.ofList (name.take start)
  | none => String.ofList name

end SattLine.Text
