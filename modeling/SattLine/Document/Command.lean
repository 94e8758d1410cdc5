import SattLine.Build.Rule
import SattLine.Document.Design
import SattLine.Store.Read

/-!
The command that writes the design document of one source file.
-/

namespace SattLine.Document

/-- What the name of a grammar file leads to. -/
inductive GrammarFile where
  | absent
  /-- The grammar with the places of its constants still open. -/
  | template
  | complete
  deriving DecidableEq, Repr

inductive CommandError where
  /-- Any other number of arguments than two. -/
  | usage
  | noGrammar
  | unfilledGrammar
  | unreadable (cause : ReadError)
  | malformed (cause : Build.SourceError)
  | misshapen (fault : Fault)

def usage : String :=
  "Usage: python docgen.py <grammar.lark> <source.sl>"

/-- A document and the place where it is written. -/
structure Written where
  place : Location
  blocks : List Block

namespace Written

def message (written : Written) : String :=
  "✅ Documentation written to " ++ written.place.text

end Written

/-- The document of a source file, which has to be UTF-8 without comments. It is written beside
the source. -/
def ofFile (store : Store) (source : Location) : Except CommandError Written :=
  match store.utf8Text source with
  | .error cause => .error (.unreadable cause)
  | .ok text =>
    match Build.programWithoutComments text with
    | .error cause => .error (.malformed cause)
    | .ok value =>
      match design value with
      | .error fault => .error (.misshapen fault)
      | .ok blocks => .ok ⟨source.withEnding ".docx", blocks⟩

/-- Runs the command; the grammar is looked at before the source. -/
def command (store : Store) (grammarAt : String → GrammarFile) (args : List String) :
    Except CommandError Written :=
  match args with
  | [grammar, source] =>
    match grammarAt grammar with
    | .absent =>
      match store.isThere (.ofText grammar) with
      | .error cause => .error (.unreadable cause)
      | .ok _ => .error .noGrammar
    | .template => .error .unfilledGrammar
    | .complete => ofFile store (.ofText source)
  | _ => .error .usage

end SattLine.Document
