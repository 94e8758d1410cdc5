import SattLine.Text.FileName

/-!
Places in a file store, by the names on the way from the root or from the current folder.
-/

namespace SattLine

variable (location : Location)

/-- The way to a file or folder, as it was written: a step up, `..`, stays in it. -/
structure Location where
  absolute : Bool
  parts : List String
  deriving DecidableEq, Repr

namespace Location

def ofText (text : String) : Location :=
  { absolute := text.startsWith "/", parts := Text.pathParts text }

/-- The current folder is written as a dot. -/
def text : String :=
  let way := "/".intercalate location.parts
  if location.absolute then "/" ++ way
  else if location.parts.isEmpty then "."
  else way

/-- Follows a way from a location; a way from the root leaves the location behind. -/
def join (way : Location) : Location :=
  if way.absolute then way else { location with parts := location.parts ++ way.parts }

/-- The location that a text names from here. -/
def child (name : String) : Location :=
  location.join (.ofText name)

def hasNul : Bool :=
  location.parts.any fun part => part.toList.contains (Char.ofNat 0)

def name : String :=
  (location.parts.getLast?).getD ""

def stem : String :=
  Text.fileStem location.name

/-- The same place with another ending; an empty ending takes the old one away. -/
def withEnding (ending : String) : Location :=
  { location with parts := location.parts.dropLast ++ [location.stem ++ ending] }

def parent : Location :=
  { location with parts := location.parts.dropLast }

/-- Takes every step up back together with the step before it; above the root is the root. -/
def settle (before : List String) : List String → List String
  | [] => before
  | ".." :: rest => settle before.dropLast rest
  | part :: rest => settle (before ++ [part]) rest

/-- Whether a location lies in a folder or is the folder itself. -/
def isWithin (location folder : Location) : Bool :=
  location.absolute == folder.absolute && folder.parts.isPrefixOf location.parts

end Location

end SattLine
