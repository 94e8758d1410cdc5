import SattLine.Text.Table

/-!
Character classes: letters, digits of any script, word characters, blanks, line breaks and
printable characters. The first 128 code points are decided directly, the others by the
tables of `SattLine.Text.Table`.
-/

namespace SattLine.Text

/-- Whether a code point is in the class with these stretches, if the first of them is. -/
def isInStretch : List Nat → Nat → Bool → Bool
  | [], _, _ => false
  | length :: rest, code, inside =>
    if code < length then inside else isInStretch rest (code - length) !inside

def withinStretches (stretches : Array Nat) (c : Char) : Bool :=
  isInStretch stretches.toList c.toNat false

def isLetter (c : Char) : Bool :=
  if c.toNat < 128 then c.isAlpha else withinStretches Table.alphabeticStretches c

/-- Letters, digits and numerals of any script, and the underscore. -/
def isWordChar (c : Char) : Bool :=
  if c.toNat < 128 then c.isAlphanum || c == '_'
  else isLetter c || withinStretches Table.numeralStretches c

/-- Characters that stand for themselves between quotes. -/
def isPrintable (c : Char) : Bool :=
  if c.toNat < 128 then 32 ≤ c.toNat && c.toNat < 127
  else withinStretches Table.printableStretches c

/-- The value of a decimal digit of any script. -/
def digitValue? (c : Char) : Option Nat :=
  let code := c.toNat
  if code < 128 then
    if c.isDigit then some (code - '0'.toNat) else none
  else
    match Table.decimalZeros.find? fun first => first ≤ code && code < first + 10 with
    | some first => some (code - first)
    | none => none

def isDigit (c : Char) : Bool :=
  (digitValue? c).isSome

/-- Blanks of any script, the separators of files, groups, records and units among them. -/
def isSpace (c : Char) : Bool :=
  let code := c.toNat
  (9 ≤ code && code ≤ 13) || (28 ≤ code && code ≤ 32) || code == 0x85 || code == 0xA0 ||
    code == 0x1680 || (0x2000 ≤ code && code ≤ 0x200A) || code == 0x2028 || code == 0x2029 ||
    code == 0x202F || code == 0x205F || code == 0x3000

/-- Characters at which a text is cut into lines. -/
def isLineEnd (c : Char) : Bool :=
  let code := c.toNat
  (10 ≤ code && code ≤ 13) || (28 ≤ code && code ≤ 30) || code == 0x85 ||
    code == 0x2028 || code == 0x2029

end SattLine.Text
