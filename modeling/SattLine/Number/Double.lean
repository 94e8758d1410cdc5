/-!
Real numbers as the language keeps them: a sign, a significand of at most 53 bits and a power
of two, together with the two infinities and an undefined number. All arithmetic is exact, on
natural numbers; `ofRatio` rounds a quotient to the nearest such number and sends a tie to the
even significand.
-/

namespace SattLine.Number

def twoTo (k : Nat) : Nat := Nat.pow 2 k

def tenTo (k : Nat) : Nat := Nat.pow 10 k

/-- The finite number is `significand * 2 ^ exponent` with its sign. Significands stay below
`2 ^ 53` and exponents at or above `-1074`; a smaller significand than `2 ^ 52` occurs at the
least exponent only. -/
inductive Double where
  | finite (negative : Bool) (significand : Nat) (exponent : Int)
  | infinite (negative : Bool)
  | undefined
  deriving DecidableEq, Repr, Inhabited

namespace Double

def leastExponent : Int := -1074

def greatestExponent : Int := 971

def zero (negative : Bool) : Double := .finite negative 0 leastExponent

/-- The quotient rounded to a whole number; a half goes to the even neighbour. -/
def roundDiv (numerator denominator : Nat) : Nat :=
  let quotient := numerator / denominator
  let twice := 2 * (numerator % denominator)
  if twice < denominator then quotient
  else if denominator < twice then quotient + 1
  else quotient + quotient % 2

/-- The numerator and denominator of a quotient divided by a power of two. -/
def scaled (numerator denominator : Nat) (exponent : Int) : Nat × Nat :=
  if exponent < 0 then (numerator * twoTo exponent.natAbs, denominator)
  else (numerator, denominator * twoTo exponent.natAbs)

/-- The exponent at which a quotient has a significand of 53 bits, or the least exponent. -/
def exponentOf (numerator denominator : Nat) : Int :=
  let low : Int := (numerator.log2 : Int) - denominator.log2 - 53
  let (top, bottom) := scaled numerator denominator low
  let exponent := if twoTo 53 ≤ top / bottom then low + 1 else low
  max exponent leastExponent

/-- The number nearest to a quotient. -/
def ofRatio (negative : Bool) (numerator denominator : Nat) : Double :=
  if numerator = 0 then zero negative
  else
    let exponent := exponentOf numerator denominator
    let (top, bottom) := scaled numerator denominator exponent
    let significand := roundDiv top bottom
    let (significand, exponent) :=
      if significand = twoTo 53 then (twoTo 52, exponent + 1) else (significand, exponent)
    if greatestExponent < exponent then .infinite negative
    else .finite negative significand exponent

/-- The number nearest to `digits * 10 ^ power`. Powers that lie far outside the range are
decided without computing them. -/
def ofDecimal (negative : Bool) (digits : Nat) (power : Int) : Double :=
  let magnitude : Int := (Nat.toDigits 10 digits).length + power
  if digits = 0 then zero negative
  else if 400 < magnitude then .infinite negative
  else if magnitude < -400 then zero negative
  else if power < 0 then ofRatio negative digits (tenTo power.natAbs)
  else ofRatio negative (digits * tenTo power.natAbs) 1

/-- The number nearest to a whole number, if one is in range. -/
def ofInt? (n : Int) : Option Double :=
  match ofRatio (n < 0) n.natAbs 1 with
  | .infinite _ => none
  | x => some x

def isNegative : Double → Bool
  | .finite negative _ _ | .infinite negative => negative
  | .undefined => false

def isZero : Double → Bool
  | .finite _ significand _ => significand == 0
  | _ => false

/-- The magnitude of a finite number as a quotient. -/
def ratio (significand : Nat) (exponent : Int) : Nat × Nat :=
  if exponent < 0 then (significand, twoTo exponent.natAbs)
  else (significand * twoTo exponent.natAbs, 1)

end Double

end SattLine.Number
