import SattLine.Build.Refusal
import SattLine.Number.Read

/-!
The values of lexemes. Names, strings, numbers and truth values become values of their kinds,
some keywords become flags or texts, and some marks vanish.
-/

namespace SattLine.Build

/-- Doubled quotes stand for one. -/
def unescape : List Char → List Char
  | '"' :: '"' :: rest => '"' :: unescape rest
  | c :: rest => c :: unescape rest
  | [] => []

/-- The characters between two quotes, or the whole text if it is not enclosed in quotes. -/
def betweenQuotes (chars : List Char) : List Char :=
  match chars with
  | '"' :: rest =>
    match rest.reverse with
    | '"' :: inner => inner.reverse
    | _ => chars
  | _ => chars

/-- The text of a string: without its quotes, doubled quotes as one, and without newlines at
its end. -/
def unquoted (text : String) : String :=
  let chars := unescape (betweenQuotes text.toList)
  String.ofList (chars.reverse.dropWhile (· == '\n')).reverse

/-- The same for any value; only a text can be one. -/
def unquotedValue (v : Value) : Except Fault String :=
  match v, v.text? with
  | _, some text => .ok (unquoted text)
  | .list _, none | .tuple _, none => .error .missingMember
  | .dict keys _, none => .error (if keys.length < 2 then .missingMember else .missingKey)
  | _, none => .error .wrongType

/-- Lexemes that become the text of a keyword. -/
def keywordText? : String → Option String
  | "CONST_KW" => some "Const"
  | "STATE_KW" => some "State"
  | "OPSAVE_KW" => some "OpSave"
  | "SECURE_KW" => some "Secure"
  | "IGNOREMAXMODULE" => some "IgnoreMaxModule"
  | "LAYERMODULE" => some "LayerModule"
  | _ => none

/-- Marks that leave nothing behind. -/
def vanishes (kind : String) : Bool :=
  ["COLON", "COMMA", "SEMI", "ASSIGN_INIT_VALUE", "DURATION_VALUE"].contains kind

/-- The value of a lexeme of the given terminal; `none` if the lexeme stays as it is. -/
def lexemeValue? (kind text : String) : Option (Result Value) :=
  match kind with
  | "NAME" => some (.ok (.text text))
  | "STRING" | "STRING_CRLF" => some (.ok (.text (unquoted text)))
  | "SIGNED_INT" => some <|
    match Number.readInt? text with
    | some n => .ok (.int n)
    | none => .error (.fault .badValue)
  | "REAL" => some <|
    match Number.readDouble? text with
    | some x => .ok (.real x)
    | none => .error (.fault .badValue)
  | "BOOL" => some (.ok (.bool (text == "True")))
  | "GLOBAL_KW" => some (.ok (.bool true))
  | "DEFAULT" => some (.ok .typeDefault)
  | "ZOOMABLE" => some (.ok (Value.ofEntries [("Zoomable", .bool true)]))
  | _ =>
    match keywordText? kind with
    | some word => some (.ok (.text word))
    | none => if vanishes kind then some (.ok .null) else none

end SattLine.Build
