import SattLine.Store.Basic
import SattLine.Text.Encoding
import SattLine.Text.Line
import SattLine.Text.Quoted

/-!
Reading text files of a store. Every line break is read as a newline.
-/

namespace SattLine

inductive ReadError where
  | absent (cause : Absence) (location : Location)
  | isFolder (location : Location)
  /-- Neither UTF-8 nor the Windows encoding. -/
  | undecodable (cause : Text.Undecodable)
  /-- Not UTF-8, where nothing else is read. -/
  | notUtf8
  deriving DecidableEq, Repr

namespace ReadError

def message : ReadError → String
  | .absent .missing location =>
    "[Errno 2] No such file or directory: " ++ Text.quoted location.text
  | .absent .behindFile location => "[Errno 20] Not a directory: " ++ Text.quoted location.text
  | .absent .overlong location => "[Errno 36] File name too long: " ++ Text.quoted location.text
  | .absent .nul _ => "embedded null byte"
  | .isFolder location => "[Errno 21] Is a directory: " ++ Text.quoted location.text
  | .undecodable cause =>
    "'charmap' codec can't decode byte 0x" ++ String.ofList (Text.hexDigits 2 cause.byte.toNat) ++
      " in position " ++ toString cause.position ++ ": character maps to <undefined>"
  | .notUtf8 => "not valid UTF-8"

end ReadError

namespace Store

def bytes (store : Store) (location : Location) : Except ReadError ByteArray :=
  match store.look location with
  | .absent cause => .error (.absent cause location)
  | .folder => .error (.isFolder location)
  | .file bytes => .ok bytes

/-- Whether something stands at a place, which has to have a possible name. -/
def isThere (store : Store) (location : Location) : Except ReadError Bool :=
  match store.look location with
  | .absent .overlong => .error (.absent .overlong location)
  | entry => .ok entry.isThere

def firstThere? (store : Store) : List Location → Except ReadError (Option Location)
  | [] => .ok none
  | location :: rest => do
    if ← store.isThere location then return some location else store.firstThere? rest

def text (store : Store) (location : Location) : Except ReadError String := do
  match Text.ofBytes (← store.bytes location) with
  | .ok text => return Text.unifyNewlines text
  | .error cause => throw (.undecodable cause)

def utf8Text (store : Store) (location : Location) : Except ReadError String := do
  match String.fromUTF8? (← store.bytes location) with
  | some text => return Text.unifyNewlines text
  | none => throw .notUtf8

end Store

end SattLine
