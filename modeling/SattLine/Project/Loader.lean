import SattLine.Project.Graph
import SattLine.Text.Order

/-!
Loading a project. A program may have a list of the names that it depends on; these are loaded
before it. Every name is loaded at most once, whatever its letter case, and a name that is
still being loaded is not started again.
-/

namespace SattLine.Project

/-- Where the files of a project are, and how it is loaded. -/
structure Loader where
  programFolder : Location
  libraryFolders : List Location
  vendorFolder : Location
  mode : Mode
  /-- Only the root is loaded, without what it depends on. -/
  rootOnly : Bool
  /-- Files of the vendor are not loaded. -/
  ignoreVendor : Bool
  /-- Makes a program of the text of a code file. -/
  build : String → Except Build.SourceError Value := Build.program

namespace Loader

def folders (loader : Loader) : List Location :=
  loader.programFolder :: loader.libraryFolders

def isIgnored (loader : Loader) (store : Store) (folder : Location) : Bool :=
  loader.ignoreVendor && (store.resolve? folder).getD folder == loader.vendorFolder

/-- The first file of a name and ending among the folders that are not left to the vendor. -/
def find? (loader : Loader) (store : Store) (ending name : String) :
    Except ReadError (Option Location) :=
  store.firstThere? <| (loader.folders.filter fun folder => !loader.isIgnored store folder).map
    fun folder => folder.child (name ++ ending)

def code? (loader : Loader) (store : Store) (name : String) : Except ReadError (Option Location) :=
  loader.find? store loader.mode.codeEnding name

def list? (loader : Loader) (store : Store) (name : String) : Except ReadError (Option Location) :=
  loader.find? store loader.mode.listEnding name

/-- A file of a name and ending that is left to the vendor. -/
def vendorFile? (loader : Loader) (store : Store) (ending name : String) :
    Except ReadError (Option Location) :=
  if loader.ignoreVendor then store.firstThere? [loader.vendorFolder.child (name ++ ending)]
  else .ok none

def vendorCode? (loader : Loader) (store : Store) (name : String) :
    Except ReadError (Option Location) :=
  loader.vendorFile? store loader.mode.codeEnding name

def vendorList? (loader : Loader) (store : Store) (name : String) :
    Except ReadError (Option Location) :=
  loader.vendorFile? store loader.mode.listEnding name

/-- The name of the folder of the project that a file lies in, or else of the folder around
it. The file is given by its way from the root. -/
def libraryName (loader : Loader) (store : Store) (file : Location) : String :=
  let folders := loader.folders.map fun folder => (store.resolve? folder).getD folder
  match folders.find? fun folder => file.isWithin folder with
  | some folder => folder.name
  | none => file.parent.name

end Loader

/-- The names in a list of dependencies: one on a line, blanks around it do not count. -/
def dependencies (store : Store) (file : Location) : Except ReadError (List String) := do
  return ((Text.lines (← store.text file)).map Text.trim).filter (· != "")

/-- The names, in small letters, that are loaded and those that are being loaded. -/
structure History where
  done : List String := []
  pending : List String := []
  deriving DecidableEq, Repr

structure Progress where
  history : History := {}
  graph : Graph := {}
  marks : Marks := {}

/-- A loading step. A failure leaves the names that are being loaded pending. -/
abbrev Loading := ExceptT LoadError (StateM Progress)

namespace Loading

def ofRead (result : Except ReadError α) : Loading α :=
  match result with
  | .ok a => return a
  | .error cause => throw (.unreadable cause)

def change (f : Graph → Graph) : Loading Unit :=
  modify fun s => { s with graph := f s.graph }

/-- Starts a name; `false` if it was started before. -/
def start (key : String) : Loading Bool := do
  let history := (← get).history
  if history.done.contains key || history.pending.contains key then return false
  modify fun s => { s with history := { history with pending := key :: history.pending } }
  return true

def finish (key : String) : Loading Unit :=
  modify fun s =>
    { s with history := { done := key :: s.history.done, pending := s.history.pending.erase key } }

end Loading

namespace Loader

def readProgram (loader : Loader) (store : Store) (file : Location) (marks : Marks) :
    Except LoadError (Picture × Marks) :=
  match store.text file with
  | .error cause => .error (.unreadable cause)
  | .ok source =>
    match loader.build source with
    | .error cause => .error (.malformed cause)
    | .ok value =>
      match value.toPicture.run marks with
      | .error fault => .error (.misshapen fault)
      | .ok result => .ok result

def origin (loader : Loader) (store : Store) (file : Location) : Origin :=
  { file := file.name, library := loader.libraryName store ((store.resolve? file).getD file) }

/-- Notes a name for which there is no program, or stops if that is not allowed. -/
def giveUp (strict : Bool) (name : String) (cause : LoadError) : Loading Unit := do
  if strict then throw cause
  Loading.change fun graph => { graph with missing := graph.missing ++ [⟨name, cause⟩] }

/-- Reads the program of a name from its code file and enters it. -/
def loadFile (loader : Loader) (store : Store) (strict : Bool) (name : String)
    (file : Location) : Loading Unit := do
  match loader.readProgram store file (← get).marks with
  | .error cause => giveUp strict name cause
  | .ok (p, marks) =>
    modify fun s => { s with
      marks := marks
      graph := s.graph.enter name (Picture.setOrigin (loader.origin store file) p) }

/-- Loads the code of a name. A name without code that the vendor has a file for is left to
the vendor. -/
def loadCode (loader : Loader) (store : Store) (strict : Bool) (name : String) :
    Loading Unit := do
  match ← Loading.ofRead (loader.code? store name) with
  | some file => loader.loadFile store strict name file
  | none =>
    let vendorCode ← Loading.ofRead (loader.vendorCode? store name)
    let vendorList ← Loading.ofRead (loader.vendorList? store name)
    match vendorCode.or vendorList with
    | some file =>
      Loading.change fun graph => { graph with ignored := graph.ignored ++ [⟨name, file⟩] }
    | none => giveUp strict name (.noCode name loader.mode)

/-- Loads a name after everything that it depends on. The first argument bounds the length of a
chain of dependencies. -/
def visit (loader : Loader) (store : Store) (strict : Bool) : Nat → String → Loading Unit
  | 0, _ => return ()
  | depth + 1, name => do
    let key := Text.lower name
    if ← Loading.start key then
      match ← Loading.ofRead (loader.list? store name) with
      | some file =>
        (← Loading.ofRead (dependencies store file)).forM (loader.visit store strict depth)
      | none => pure ()
      loader.loadCode store strict name
      Loading.finish key

def loadRoot (loader : Loader) (store : Store) (strict : Bool) (name : String) :
    Loading Unit := do
  match ← Loading.ofRead (loader.code? store name) with
  | some file => loader.loadFile store strict name file
  | none => giveUp strict name (.noRootCode name loader.mode)

/-- The longest chain of dependencies that a store can hold. The names on a chain differ, each
but the first is a line of a file, and a line has at least one byte. -/
def chainLimit (store : Store) : Nat :=
  store.byteCount + 2

/-- Loads a project from its root. The names that earlier calls loaded, or left pending, are not
loaded again. -/
def resolve (loader : Loader) (store : Store) (history : History) (root : String)
    (strict : Bool) : Except LoadError (Graph × Marks) × History :=
  let loading :=
    if loader.rootOnly then loader.loadRoot store strict root
    else loader.visit store strict (chainLimit store) root
  let (result, progress) := loading.run.run { history := history }
  match result with
  | .ok () => (.ok (progress.graph, progress.marks), progress.history)
  | .error cause => (.error cause, progress.history)

end Loader

end SattLine.Project
