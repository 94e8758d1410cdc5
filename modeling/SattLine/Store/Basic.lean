import SattLine.Store.Location

/-!
A file store: folders and files with their bytes. Nothing in it links to another place, so a
way through it is followed name by name.
-/

namespace SattLine

inductive Absence where
  | missing
  /-- A file stands in the way. -/
  | behindFile
  /-- A name on the way is too long. -/
  | overlong
  /-- There is a NUL character on the way. -/
  | nul
  deriving DecidableEq, Repr

inductive Entry where
  | absent (cause : Absence)
  | folder
  | file (bytes : ByteArray)

namespace Entry

def isThere : Entry → Bool
  | .absent _ => false
  | _ => true

def size : Entry → Nat
  | .file bytes => bytes.size
  | _ => 0

end Entry

/-- The entries by their ways from the root, and the current folder. Of two entries for one
place the first counts. The root itself is always a folder. -/
structure Store where
  entries : List (List String × Entry) := []
  current : List String := []

namespace Store

def entryAt (store : Store) : List String → Entry
  | [] => .folder
  | place => ((store.entries.find? fun (key, _) => key == place).map Prod.snd).getD (.absent .missing)

/-- The most bytes that a name can have. -/
def nameLimit : Nat := 255

/-- The place that a way leads to. Every place that is passed has to be a folder. -/
def walk (store : Store) (place : List String) : List String → Except Absence (List String)
  | [] => .ok place
  | part :: rest =>
    match store.entryAt place with
    | .folder =>
      if part.utf8ByteSize > nameLimit then .error .overlong
      else store.walk (if part == ".." then place.dropLast else place ++ [part]) rest
    | .file _ => .error .behindFile
    | .absent cause => .error cause

def start (store : Store) (location : Location) : List String :=
  if location.absolute then [] else store.current

def look (store : Store) (location : Location) : Entry :=
  if location.hasNul then .absent .nul
  else
    match store.walk (store.start location) location.parts with
    | .ok place => store.entryAt place
    | .error cause => .absent cause

def contains (store : Store) (location : Location) : Bool :=
  (store.look location).isThere

/-- The location with its steps up taken back, from the root. A name with a NUL character
names no place. -/
def resolve? (store : Store) (location : Location) : Option Location :=
  if location.hasNul then none
  else some { absolute := true, parts := Location.settle (store.start location) location.parts }

/-- Makes a folder and the folders around it, unless they are there. -/
def makeFolder (store : Store) (place : List String) : Store :=
  let ways := (List.range (place.length + 1)).map place.take
  let missing := ways.filter fun way => !(store.entryAt way).isThere
  { store with entries := missing.map (·, Entry.folder) ++ store.entries }

/-- Writes a file; the folders around it are made. -/
def write (store : Store) (place : List String) (bytes : ByteArray) : Store :=
  let store := store.makeFolder place.dropLast
  { store with entries := (place, .file bytes) :: store.entries }

def namesIn (store : Store) (place : List String) : List String :=
  (store.entries.filterMap fun (key, _) =>
    if key.dropLast == place then key.getLast? else none).eraseDups

def byteCount (store : Store) : Nat :=
  store.entries.foldl (fun total entry => total + entry.2.size) 0

end Store

end SattLine
