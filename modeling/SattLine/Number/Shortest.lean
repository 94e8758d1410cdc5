import SattLine.Number.Double

/-!
Decimal texts of real numbers: the fewest digits that read back as the number, and a fixed
count of significant digits.
-/

namespace SattLine.Number

/-- Decimal digits with the place of the point: the value is `0.digits * 10 ^ point`. -/
structure Decimal where
  digits : List Char
  point : Int

namespace Decimal

/-- The text with an exponent: one digit before the point, at least two in the exponent. -/
def scientific (d : Decimal) : String :=
  let power := d.point - 1
  let exponent := toString power.natAbs
  let exponent := if exponent.length < 2 then "0" ++ exponent else exponent
  let lead := match d.digits with
    | [] => "0"
    | [c] => String.singleton c
    | c :: rest => String.singleton c ++ "." ++ String.ofList rest
  lead ++ "e" ++ (if power < 0 then "-" else "+") ++ exponent

/-- The text without an exponent. A whole number has no point. -/
def positional (d : Decimal) : String :=
  let zeros (count : Nat) := String.ofList (List.replicate count '0')
  if d.point ≤ 0 then "0." ++ zeros d.point.natAbs ++ String.ofList d.digits
  else
    let whole := d.point.natAbs
    if d.digits.length ≤ whole then String.ofList d.digits ++ zeros (whole - d.digits.length)
    else String.ofList (d.digits.take whole) ++ "." ++ String.ofList (d.digits.drop whole)

end Decimal

namespace Double

/-- The place of the decimal point of a quotient: `10 ^ (point - 1) ≤ quotient < 10 ^ point`. -/
def pointOf (numerator denominator : Nat) : Int :=
  let quotient := numerator / denominator
  if 0 < quotient then (Nat.toDigits 10 quotient).length
  else
    let power := (Nat.toDigits 10 (denominator / numerator)).length
    if denominator ≤ numerator * tenTo (power - 1) then 2 - (power : Int) else 1 - (power : Int)

def timesTen (numerator denominator : Nat) (power : Int) : Nat × Nat :=
  if power < 0 then (numerator, denominator * tenTo power.natAbs)
  else (numerator * tenTo power.natAbs, denominator)

/-- The two decimals with `count` digits around a quotient, the nearer one first; of two that
are equally near the even one comes first. -/
def neighbours (numerator denominator : Nat) (power : Int) : List Nat :=
  let (top, bottom) := timesTen numerator denominator power
  let low := top / bottom
  if top % bottom = 0 then [low]
  else if roundDiv top bottom = low then [low, low + 1]
  else [low + 1, low]

/-- Trailing zeros are not digits of a shortest decimal. -/
def withoutTrailingZeros (digits : List Char) : List Char :=
  (digits.reverse.dropWhile (· == '0')).reverse

/-- The first count of digits, from `count` on, at which a neighbour reads back as `x`. -/
def shortestFrom (x : Double) (numerator denominator : Nat) (point : Int) :
    Nat → Nat → Nat × Int
  | 0, count => (numerator / denominator, point - count)
  | fuel + 1, count =>
    let power := (count : Int) - point
    match (neighbours numerator denominator power).find? fun n =>
        ofDecimal x.isNegative n (-power) == x with
    | some n => (n, -power)
    | none => shortestFrom x numerator denominator point fuel (count + 1)

/-- The fewest digits that read back as the finite number. -/
def shortest (negative : Bool) (significand : Nat) (exponent : Int) : Decimal :=
  let (numerator, denominator) := ratio significand exponent
  let point := pointOf numerator denominator
  let (n, power) :=
    shortestFrom (.finite negative significand exponent) numerator denominator point 17 1
  let digits := Nat.toDigits 10 n
  { digits := withoutTrailingZeros digits, point := digits.length + power }

/-- The text of a real number: the fewest digits that read back, positional from `0.0001` up
to `10 ^ 16` and always with a point, otherwise with an exponent. -/
def text : Double → String
  | .undefined => "nan"
  | .infinite negative => if negative then "-inf" else "inf"
  | .finite negative significand exponent =>
    let sign := if negative then "-" else ""
    if significand = 0 then sign ++ "0.0"
    else
      let d := shortest negative significand exponent
      if d.point ≤ -4 || 16 < d.point then sign ++ d.scientific
      else
        let body := d.positional
        sign ++ if body.contains '.' then body else body ++ ".0"

/-- A decimal of exactly `count` significant digits, rounded to nearest, ties to even. -/
def significant (count : Nat) (significand : Nat) (exponent : Int) : Decimal :=
  let (numerator, denominator) := ratio significand exponent
  let point := pointOf numerator denominator
  let (top, bottom) := timesTen numerator denominator ((count : Int) - point)
  let digits := Nat.toDigits 10 (roundDiv top bottom)
  { digits := withoutTrailingZeros digits, point := point + digits.length - count }

/-- The text with at most `count` significant digits and no trailing zeros; positional from
`0.0001` up to `10 ^ count`. -/
def general (count : Nat) : Double → String
  | .undefined => "nan"
  | .infinite negative => if negative then "-inf" else "inf"
  | .finite negative significand exponent =>
    let sign := if negative then "-" else ""
    if significand = 0 then sign ++ "0"
    else
      let d := significant count significand exponent
      sign ++ if d.point ≤ -4 || (count : Int) < d.point then d.scientific else d.positional

end Double

end SattLine.Number
