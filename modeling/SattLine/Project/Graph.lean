import SattLine.Build.Message
import SattLine.Program.OfValue
import SattLine.Project.Mode
import SattLine.Store.Read

/-!
What is known of a project: its programs by name, and the module types and record types that
they define. A later definition takes the place of an earlier one of the same name.
-/

namespace SattLine.Project

inductive LoadError where
  | noCode (name : String) (mode : Mode)
  /-- The same, where the root alone was asked for. -/
  | noRootCode (name : String) (mode : Mode)
  | unreadable (cause : ReadError)
  | malformed (cause : Build.SourceError)
  | misshapen (fault : Fault)

namespace LoadError

def message : LoadError → String
  | .noCode name mode => "Missing code file for '" ++ name ++ "' (" ++ mode.name ++ ")"
  | .noRootCode name mode => "Missing code file for '" ++ name ++ "' in mode=" ++ mode.name
  | .unreadable cause | .malformed cause => cause.message
  | .misshapen fault => fault.message

end LoadError

/-- A name for which there is no program. -/
structure Missing where
  name : String
  cause : LoadError

namespace Missing

def text (missing : Missing) : String :=
  match missing.cause with
  | .noCode _ _ | .noRootCode _ _ => missing.cause.message
  | cause => missing.name ++ " parse/transform error: " ++ cause.message

/-- Whether the code was found and does not parse. -/
def isSyntactic (missing : Missing) : Bool :=
  match missing.cause with
  | .malformed (.syntactic _) => true
  | _ => false

end Missing

/-- A name that is left to the vendor, and a file of the vendor's that shows it. -/
structure Ignored where
  name : String
  file : Location

namespace Ignored

def text (ignored : Ignored) : String :=
  ignored.name ++ " (vendor: " ++ ignored.file.text ++ ")"

end Ignored

/-- Puts an item into a list in which each name occurs once: in the place of the item of that
name, or at the end. -/
def putNamed (nameOf : α → String) (item : α) : List α → List α
  | [] => [item]
  | first :: rest =>
    if nameOf first == nameOf item then item :: rest else first :: putNamed nameOf item rest

/-- The programs of a project in the order in which they were loaded, each under the name by
which it was asked for, with the definitions of all of them. -/
structure Graph where
  programs : List (String × Picture) := []
  types : List TypeDef := []
  records : List Value := []
  missing : List Missing := []
  ignored : List Ignored := []

/-- The file and the library that a definition comes from. An empty name is no name. -/
structure Origin where
  file : String
  library : String

namespace Origin

/-- An origin that is already noted stays. -/
def unlessNoted (name : String) (old : Value) : Value :=
  if old.holds || name == "" then old else .text name

end Origin

def recordName (record : Value) : String :=
  ((record.field? "name").bind Value.text?).getD ""

namespace Picture

def setTypeOrigin (origin : Origin) (type : TypeDef) : TypeDef :=
  { type with
    originFile := Origin.unlessNoted origin.file type.originFile
    originLib := Origin.unlessNoted origin.library type.originLib }

def setRecordOrigin (origin : Origin) (record : Value) : Value :=
  let file := Origin.unlessNoted origin.file ((record.field? "origin_file").getD .null)
  let library := Origin.unlessNoted origin.library ((record.field? "origin_lib").getD .null)
  (record.setField "origin_file" file).setField "origin_lib" library

/-- Notes where a program and its definitions come from. -/
def setOrigin (origin : Origin) (p : Picture) : Picture :=
  { p with
    originFile := Origin.unlessNoted origin.file p.originFile
    originLib := Origin.unlessNoted origin.library p.originLib
    types := p.types.map (setTypeOrigin origin)
    records := p.records.map (setRecordOrigin origin) }

end Picture

namespace Graph

def enter (graph : Graph) (name : String) (p : Picture) : Graph :=
  { graph with
    programs := putNamed Prod.fst (name, p) graph.programs
    types := p.types.foldl (fun types type => putNamed TypeDef.name type types) graph.types
    records := p.records.foldl (fun records record => putNamed recordName record records)
      graph.records }

def find? (graph : Graph) (name : String) : Option Picture :=
  graph.programs.lookup name

/-- The root program with the definitions of the whole project in the place of its own. -/
def merge (graph : Graph) (root : Picture) : Picture :=
  { root with types := graph.types, records := graph.records }

end Graph

end SattLine.Project
