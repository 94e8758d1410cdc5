import SattLine.Number.Double
import SattLine.Text.CharClass

/-!
Reading numbers. Digits may come from any script, single underscores may stand between digits,
and blanks around a number do not count.
-/

namespace SattLine.Number

/-- Blanks that may surround a number. The separators of files, groups, records and units do
not count among them. -/
def isMargin (c : Char) : Bool :=
  Text.isSpace c && !(28 ≤ c.toNat && c.toNat ≤ 31)

def trimMargin (chars : List Char) : List Char :=
  ((chars.dropWhile isMargin).reverse.dropWhile isMargin).reverse

/-- Splits off a leading sign; the flag says whether it is a minus. -/
def splitSign : List Char → Bool × List Char
  | '-' :: rest => (true, rest)
  | '+' :: rest => (false, rest)
  | chars => (false, chars)

/-- Reads the longest run of digits in which single underscores may stand between two digits;
`inside` says that a digit has just been read. Gives the values of the digits and the rest. -/
def digitsFrom (digit? : Char → Option Nat) (inside : Bool) : List Char → List Nat × List Char
  | [] => ([], [])
  | '_' :: c :: rest =>
    match inside, digit? c with
    | true, some n =>
      let (digits, left) := digitsFrom digit? true rest
      (n :: digits, left)
    | _, _ => ([], '_' :: c :: rest)
  | c :: rest =>
    match digit? c with
    | some n =>
      let (digits, left) := digitsFrom digit? true rest
      (n :: digits, left)
    | none => ([], c :: rest)

def readDigits (chars : List Char) : List Nat × List Char :=
  digitsFrom Text.digitValue? false chars

def ofDigits (digits : List Nat) : Nat :=
  digits.foldl (fun n d => 10 * n + d) 0

/-- Whole numbers of more digits than this are refused. -/
def digitLimit : Nat := 4300

def readInt? (text : String) : Option Int :=
  let (negative, body) := splitSign (trimMargin text.toList)
  match readDigits body with
  | ([], _) => none
  | (digits, []) =>
    if digitLimit < digits.length then none
    else
      let n : Int := ofDigits digits
      some (if negative then -n else n)
  | _ => none

/-- The exponent at the end of a real number; no exponent counts as zero. -/
def readExponent? : List Char → Option Int
  | [] => some 0
  | e :: rest =>
    if e == 'e' || e == 'E' then
      let (negative, body) := splitSign rest
      match readDigits body with
      | ([], _) => none
      | (digits, []) =>
        let n : Int := ofDigits digits
        some (if negative then -n else n)
      | _ => none
    else none

def readDecimal? (negative : Bool) (body : List Char) : Option Double :=
  let (whole, rest) := readDigits body
  let (fraction, rest) := match rest with
    | '.' :: rest => readDigits rest
    | rest => ([], rest)
  if whole.isEmpty && fraction.isEmpty then none
  else
    match readExponent? rest with
    | none => none
    | some exponent =>
      some (Double.ofDecimal negative (ofDigits (whole ++ fraction)) (exponent - fraction.length))

/-- The real number written by a text: a decimal, an infinity or the undefined number. -/
def readDouble? (text : String) : Option Double :=
  let (negative, body) := splitSign (trimMargin text.toList)
  match String.ofList (body.map Char.toLower) with
  | "inf" | "infinity" => some (.infinite negative)
  | "nan" => some .undefined
  | _ => readDecimal? negative body

end SattLine.Number
