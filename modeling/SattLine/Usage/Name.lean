import SattLine.Text.Line
import SattLine.Text.Split
import SattLine.Value.Basic

/-!
Variable names inside texts and trees.
-/

namespace SattLine.Usage

def isNameStart (c : Char) : Bool :=
  c.isAlpha || "ÆØÅæøå".toList.contains c

def isNameChar (c : Char) : Bool :=
  isNameStart c || c.isDigit || c == '_' || c == '\''

def isPlainName : List Char → Bool
  | [] => false
  | c :: rest => isNameStart c && rest.all isNameChar

def withoutNewline (chars : List Char) : List Char :=
  if chars.getLast? == some '\n' then chars.dropLast else chars

/-- At least two names with dots between them; a newline may follow. -/
def isDottedName (text : String) : Bool :=
  let parts := Text.stretches '.' (withoutNewline text.toList)
  parts.length ≥ 2 && parts.all isPlainName

/-- The variable that a text may name: the part before its first dot, or the whole text if it
begins with a letter and `single` allows it. -/
def nameInText (single : Bool) (text : String) : List String :=
  let text := Text.trim text
  let base := Text.before '.' text
  if text.contains '.' && Text.trim base != "" then [base]
  else if single && (text.toList.head?.map Text.isLetter).getD false then [text]
  else []

mutual

/-- The variables named in a value, lists and trees included. -/
def namesIn (single : Bool) : Value → List String
  | .dict keys values =>
    match ((Value.dict keys values).get? "var_name").bind Value.text? with
    | some name => if name == "" then [] else [Text.before '.' name]
    | none => []
  | .text s | .token _ s => nameInText single s
  | .list items => namesInAll single items
  | .tree _ _ children => namesInAll single children
  | _ => []

def namesInAll (single : Bool) : List Value → List String
  | [] => []
  | v :: rest => namesIn single v ++ namesInAll single rest

end

end SattLine.Usage
