import SattLine.Store.Read
import SattLine.Text.Form
import SattLine.Text.Order

/-!
Configuration files: the programs and libraries that one group of stations runs.
-/

namespace SattLine.Plant

/-- The ending of the files that list what a component depends on. -/
def listEnding : String := ".z"

/-- A name without the ending that it may be written with. -/
def withoutEnding (name : String) : String :=
  if name.endsWith listEnding then (name.dropEnd 2).toString else name

structure ProgramEntry where
  name : String
  directory : String
  isMain : Bool
  deriving DecidableEq, Repr

structure LibraryEntry where
  name : String
  directory : String
  deriving DecidableEq, Repr

/-- What a configuration file says. It is named after the file. -/
structure Configuration where
  name : String
  version : String
  date : String
  programs : List ProgramEntry
  libraries : List LibraryEntry
  deriving DecidableEq, Repr

namespace Configuration

def headForm : Text.Form :=
  [.word "Configuration", .blanks, .word "(", .blanks, .word "Version", .gap, .quoted, .gap,
    .word "Date", .gap, .quoted, .gap, .word "Name", .gap, .quoted]

def programForm : Text.Form :=
  [.word "Program", .blanks, .word "(", .blanks, .word "Name", .gap, .quoted, .gap,
    .word "Directory", .gap, .quoted, .gap, .word "MainProgram", .gap, .name]

def libraryForm : Text.Form :=
  [.word "Library", .blanks, .word "(", .blanks, .word "Name", .gap, .quoted, .gap,
    .word "Directory", .gap, .quoted]

def programOf? : List String → Option ProgramEntry
  | [name, directory, main] => some ⟨withoutEnding name, directory, main == "True"⟩
  | _ => none

def libraryOf? : List String → Option LibraryEntry
  | [name, directory] => some ⟨withoutEnding name, directory⟩
  | _ => none

/-- Reads a configuration; without a head it is none. -/
def parse? (name text : String) : Option Configuration :=
  match headForm.first? text with
  | some [version, date, _] =>
    some
      { name := name
        version := version
        date := date
        programs := (programForm.all text).filterMap programOf?
        libraries := (libraryForm.all text).filterMap libraryOf? }
  | _ => none

/-- A file that cannot be read holds no configuration. -/
def ofFile? (store : Store) (file : Location) : Option Configuration :=
  match store.text file with
  | .ok text => parse? file.stem text
  | .error _ => none

/-- The first program that is marked as the main one. -/
def mainProgram (c : Configuration) : String :=
  ((c.programs.find? ProgramEntry.isMain).map ProgramEntry.name).getD "None"

def programNames (c : Configuration) : List String :=
  c.programs.map ProgramEntry.name

def libraryNames (c : Configuration) : List String :=
  c.libraries.map LibraryEntry.name

end Configuration

/-- The files in a folder whose names have an ending, by name. -/
def filesEnding (store : Store) (folder : Location) (ending : String) : List Location :=
  match store.walk (store.start folder) folder.parts with
  | .error _ => []
  | .ok place =>
    (Text.sorted ((store.namesIn place).filter (·.endsWith ending))).map fun name =>
      { folder with parts := folder.parts ++ [name] }

end SattLine.Plant
