import SattLine.Text.CharClass

/-!
Small letters. Names are compared by their small-letter form. A capital letter goes to its
small letter, the dotted capital I to two characters, and a capital sigma at the end of a
word to the final form.
-/

namespace SattLine.Text

/-- The small letter of a capital letter that has exactly one. -/
def lowerChar (c : Char) : Char :=
  let code := c.toNat
  if code < 128 then c.toLower
  else
    match Table.caseRuns.find? fun run =>
        run.first ≤ code && code ≤ run.last && (code - run.first) % run.stride == 0 with
    | some run => Char.ofNat (code + run.shift).toNat
    | none => c

def isCaseIgnorable (c : Char) : Bool :=
  if c.toNat < 128 then c == '\'' || c == '.' || c == ':' || c == '^' || c == Char.ofNat 0x60
  else withinStretches Table.caseIgnorableStretches c

def isCased (c : Char) : Bool :=
  if c.toNat < 128 then c.isAlpha else withinStretches Table.casedStretches c

def capitalSigma : Char := Char.ofNat 0x3A3

/-- Whether the nearest character that is not skipped has a case. -/
def nextIsCased (chars : List Char) : Bool :=
  match chars.dropWhile isCaseIgnorable with
  | [] => false
  | c :: _ => isCased c

/-- Small letters of a stretch of text, given the characters before it, last one first. -/
def lowerAfter : List Char → List Char → List Char
  | _, [] => []
  | before, c :: rest =>
    let small :=
      if c == capitalSigma then
        if nextIsCased before && !nextIsCased rest then [Char.ofNat 0x3C2] else [Char.ofNat 0x3C3]
      else if c.toNat == 0x130 then ['i', Char.ofNat 0x307]
      else [lowerChar c]
    small ++ lowerAfter (c :: before) rest

def lower (text : String) : String :=
  String.ofList (lowerAfter [] text.toList)

/-- Two names are the same name when their small-letter forms agree. -/
def sameName (first second : String) : Bool :=
  lower first == lower second

end SattLine.Text
