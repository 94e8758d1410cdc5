import SattLine.Program.Scope
import SattLine.Program.Marks
import SattLine.Text.Line
import SattLine.Text.Quoted

/-!
What an analysis reports about variables, and the texts of a report.
-/

namespace SattLine.Usage

inductive IssueKind where
  | unused
  | readOnly
  | neverRead
  | stringMismatch
  | repeatedType
  deriving DecidableEq, Repr

namespace IssueKind

def name : IssueKind → String
  | .unused => "unused"
  | .readOnly => "read_only_non_const"
  | .neverRead => "never_read"
  | .stringMismatch => "string_mapping_mismatch"
  | .repeatedType => "datatype_duplication"

end IssueKind

/-- A report on a variable. `source` is the variable that a mismatched parameter is connected to,
and `others` are the other places where a repeated type is declared. -/
structure Issue where
  kind : IssueKind
  path : Path
  subject : Variable
  role : Option String := none
  source : Option Variable := none
  count : Option Nat := none
  others : Option (List (Path × String)) := none

namespace Issue

def location (issue : Issue) : String :=
  ".".intercalate issue.path

def roleText (issue : Issue) : String :=
  issue.role.getD "None"

def text (issue : Issue) : String :=
  "[" ++ issue.location ++ "] " ++ issue.roleText ++ "  " ++ Text.quoted issue.subject.name ++
    " (" ++ issue.subject.type.text ++ ")"

def cells (issue : Issue) : List String :=
  [issue.location, (issue.source.map (·.name)).getD "?", (issue.source.map (·.type.text)).getD "?",
    issue.subject.name, issue.subject.type.text]

/-- The widths that a mismatch needs in the table; a missing source needs none. -/
def widths (issue : Issue) : List Nat :=
  [issue.location.length, (issue.source.map (·.name.length)).getD 0,
    (issue.source.map (·.type.text.length)).getD 0, issue.subject.name.length,
    issue.subject.type.text.length]

end Issue

def columnWidths (rows : List (List Nat)) : List Nat :=
  rows.foldl (fun widths row => (widths.zip row).map fun (a, b) => max a b) [0, 0, 0, 0, 0]

def mismatchRow (widths : List Nat) (cells : List String) : String :=
  match (widths.zip cells).map fun (w, cell) => Text.padRight w cell with
  | [location, source, sourceType, target, targetType] =>
    "      " ++ location ++ "  " ++ source ++ "  " ++ sourceType ++ "  =>  " ++ target ++ "  " ++
      targetType
  | _ => ""

def mismatchTable (issues : List Issue) : List String :=
  let widths := columnWidths (issues.map Issue.widths)
  let heading := mismatchRow widths ["Location", "Source Var", "Type", "Target Var", "Type"]
  let rule := String.ofList (List.replicate (Text.trim heading).length '-')
  [heading, "      " ++ rule] ++ issues.map fun issue => mismatchRow widths issue.cells

/-- Items under their keys, keys in the order in which they first occur. -/
def groupBy (key : α → String) (items : List α) : List (String × List α) :=
  (items.map key).eraseDups.map fun k => (k, items.filter fun a => key a == k)

def repeatedTypeLines (name : String) (issues : List Issue) : List String :=
  let total := issues.foldl (fun total issue => total + issue.count.getD 0) 0
  ("      Datatype '" ++ name ++ "' declared " ++ toString total ++ " times:") ::
    issues.flatMap fun issue =>
      ("        - " ++ issue.location ++ ": " ++ issue.subject.name ++ " (" ++ issue.roleText ++
        ")") ::
        (issue.others.getD []).map fun (path, role) =>
          "          + " ++ ".".intercalate path ++ " (" ++ role ++ ")"

def titled (title : String) (issues : List Issue) (lines : List Issue → List String) :
    List String :=
  if issues.isEmpty then [] else title :: lines issues

def bulleted (issues : List Issue) : List String :=
  issues.map fun issue => "      * " ++ issue.text

def summary (program : String) (issues : List Issue) : String :=
  if issues.isEmpty then "No variable issues in " ++ program
  else
    let ofKind kind := issues.filter fun issue => issue.kind == kind
    "\n".intercalate <|
      ["Variable issues in " ++ program ++ ":"] ++
      titled "  - Unused variables:" (ofKind .unused) bulleted ++
      titled "  - Read-only but not Const variables:" (ofKind .readOnly) bulleted ++
      titled "  - written, but never read variables:" (ofKind .neverRead) bulleted ++
      titled "  - String mapping type mismatches:" (ofKind .stringMismatch) (fun found =>
        [""] ++ mismatchTable found ++ [""]) ++
      titled "  - Duplicated complex datatypes (should be RECORD):" (ofKind .repeatedType)
        fun found =>
          let groups := groupBy (fun issue => issue.subject.type.text) found
          let sorted := groups.mergeSort fun a b => !(b.1 < a.1)
          [""] ++ sorted.flatMap (fun (name, issues) => repeatedTypeLines name issues) ++ [""]

end SattLine.Usage
