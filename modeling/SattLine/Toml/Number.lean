import SattLine.Number.Read
import SattLine.Value.Basic

/-!
Numbers, dates and times of a TOML document. Underscores may stand between digits.
-/

namespace SattLine.Toml

def decimalDigit? (c : Char) : Option Nat :=
  if c.isDigit then some (c.toNat - '0'.toNat) else none

def digitBelow? (base : Nat) (c : Char) : Option Nat :=
  let value :=
    if c.isDigit then some (c.toNat - '0'.toNat)
    else if 'a' ≤ c.toLower ∧ c.toLower ≤ 'f' then some (c.toLower.toNat - 'a'.toNat + 10)
    else none
  value.filter (· < base)

def ofDigitsIn (base : Nat) (digits : List Nat) : Nat :=
  digits.foldl (fun n d => base * n + d) 0

/-- A whole number in another base, behind its mark. -/
def based? (base : Nat) (chars : List Char) : Option (Value × List Char) :=
  match Number.digitsFrom (digitBelow? base) false chars with
  | ([], _) => none
  | (digits, rest) => some (.int (ofDigitsIn base digits), rest)

/-- The characters of a decimal whole number without its sign: zero, or digits that do not
start with zero. -/
def wholePart? : List Char → Option (List Nat × List Char)
  | '0' :: rest => some ([0], rest)
  | chars =>
    match Number.digitsFrom decimalDigit? false chars with
    | ([], _) => none
    | result => some result

def skipFraction? : List Char → Option (List Char)
  | '.' :: rest =>
    match Number.digitsFrom decimalDigit? false rest with
    | ([], _) => none
    | (_, rest) => some rest
  | _ => none

def skipExponent? : List Char → Option (List Char)
  | e :: rest =>
    if e == 'e' || e == 'E' then
      match Number.digitsFrom decimalDigit? false (Number.splitSign rest).2 with
      | ([], _) => none
      | (_, rest) => some rest
    else none
  | [] => none

def decimal? (chars : List Char) : Option (Value × List Char) := do
  let (negative, body) := Number.splitSign chars
  let (digits, rest) ← wholePart? body
  let behind := (skipFraction? rest).getD rest
  let behind := (skipExponent? behind).getD behind
  if behind.length == rest.length then
    let n : Int := ofDigitsIn 10 digits
    return (.int (if negative then -n else n), rest)
  else
    let text := String.ofList (chars.take (chars.length - behind.length))
    return (.real (← Number.readDouble? text), behind)

/-- The numbers that have no digits. -/
def special? : List Char → Option (Value × List Char)
  | chars =>
    let (negative, body) := Number.splitSign chars
    match body with
    | 'i' :: 'n' :: 'f' :: rest => some (.real (.infinite negative), rest)
    | 'n' :: 'a' :: 'n' :: rest => some (.real .undefined, rest)
    | _ => none

def number? (chars : List Char) : Option (Value × List Char) :=
  let other := match chars with
    | '0' :: 'x' :: rest => based? 16 rest
    | '0' :: 'b' :: rest => based? 2 rest
    | '0' :: 'o' :: rest => based? 8 rest
    | _ => none
  other.or ((decimal? chars).or (special? chars))

/-! Dates and times -/

/-- A number of exactly so many digits, within bounds. -/
def field? (digits low high : Nat) (chars : List Char) : Option (Nat × List Char) := do
  let values ← (chars.take digits).mapM decimalDigit?
  let n := ofDigitsIn 10 values
  if values.length == digits && low ≤ n && n ≤ high then some (n, chars.drop digits) else none

def mark? (mark : Char) : List Char → Option (List Char)
  | c :: rest => if c == mark then some rest else none
  | [] => none

/-- The digits behind a decimal point, up to six of them as millionths. -/
def millionths? : List Char → Option (Nat × List Char)
  | '.' :: rest =>
    match rest.takeWhile Char.isDigit with
    | [] => none
    | digits =>
      let six := (digits ++ List.replicate 6 '0').take 6
      some (ofDigitsIn 10 (six.filterMap decimalDigit?), rest.dropWhile Char.isDigit)
  | _ => none

def clock? (chars : List Char) : Option (Clock × List Char) := do
  let (hour, rest) ← field? 2 0 23 chars
  let (minute, rest) ← field? 2 0 59 (← mark? ':' rest)
  let (second, rest) ← field? 2 0 59 (← mark? ':' rest)
  let (micros, rest) := (millionths? rest).getD (0, rest)
  return (⟨hour, minute, second, micros⟩, rest)

/-- An offset in minutes. -/
def offset? : List Char → Option (Int × List Char)
  | 'Z' :: rest | 'z' :: rest => some (0, rest)
  | sign :: rest => do
    guard (sign == '+' || sign == '-')
    let (hour, rest) ← field? 2 0 23 rest
    let (minute, rest) ← field? 2 0 59 (← mark? ':' rest)
    let minutes : Int := hour * 60 + minute
    return (if sign == '-' then -minutes else minutes, rest)
  | [] => none

def day? (chars : List Char) : Option (Day × List Char) := do
  let (year, rest) ← field? 4 1 9999 chars
  let (month, rest) ← field? 2 1 12 (← mark? '-' rest)
  let (day, rest) ← field? 2 1 (Day.countIn year month) (← mark? '-' rest)
  return (⟨year, month, day⟩, rest)

/-- A time of day, or a day, with a time and an offset if they are written. -/
def moment? (chars : List Char) : Option (Moment × List Char) :=
  match day? chars with
  | none => (clock? chars).map fun (clock, rest) => (.clock clock, rest)
  | some (day, rest) =>
    let timed : Option (Moment × List Char) := do
      match rest with
      | separator :: rest =>
        guard (separator == 'T' || separator == 't' || separator == ' ')
        let (clock, rest) ← clock? rest
        match offset? rest with
        | some (offset, rest) => return (.both day clock (some offset), rest)
        | none => return (.both day clock none, rest)
      | [] => none
    some (timed.getD (.day day, rest))

end SattLine.Toml
