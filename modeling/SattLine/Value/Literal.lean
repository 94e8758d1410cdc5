import SattLine.Number.Shortest
import SattLine.Text.Quoted
import SattLine.Value.Basic

/-!
The literal form of a value: one line of text from which its kind and its parts can be told.
-/

namespace SattLine.Value

open Number

def literalOfSimple (type : SimpleType) : String :=
  "Simple_DataType." ++ String.ofList (type.name.toList.map Char.toUpper)

/-- The parts of a tuple between parentheses; a single part is followed by a comma. -/
def tupleOf (parts : List String) : String :=
  match parts with
  | [one] => "(" ++ one ++ ",)"
  | parts => "(" ++ ", ".intercalate parts ++ ")"

def listOf (parts : List String) : String :=
  "[" ++ ", ".intercalate parts ++ "]"

def dictOf (keys parts : List String) : String :=
  "\x7b" ++ ", ".intercalate ((keys.zip parts).map fun (key, part) => key ++ ": " ++ part) ++ "\x7d"

def elementOf (kind : Element) (parts : List String) : String :=
  kind.name ++ "(" ++ ", ".intercalate (((kind.fields.map Prod.fst).zip parts).map
    fun (name, part) => name ++ "=" ++ part) ++ ")"

def literalOfLabel (label : String) (ofRule : Bool) : String :=
  if ofRule then "Token('RULE', " ++ Text.quoted label ++ ")" else Text.quoted label

mutual

def literal : Value → String
  | .null => "None"
  | .bool b => if b then "True" else "False"
  | .int n => toString n
  | .real x => x.text
  | .text s => Text.quoted s
  | .moment m => m.literal
  | .token kind s => "Token(" ++ Text.quoted kind ++ ", " ++ Text.quoted s ++ ")"
  | .list items => listOf (literals items)
  | .tuple items => tupleOf (literals items)
  | .dict keys values => dictOf (literals keys) (literals values)
  | .tree label ofRule children =>
    "Tree(" ++ literalOfLabel label ofRule ++ ", " ++ listOf (literals children) ++ ")"
  | .simpleType type => "<" ++ literalOfSimple type ++ ": " ++ Text.quoted type.name ++ ">"
  | .typeDefault => "<object object>"
  | .element kind fields => elementOf kind (literals fields)

def literals : List Value → List String
  | [] => []
  | v :: rest => literal v :: literals rest

end

end SattLine.Value
