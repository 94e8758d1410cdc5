/-!
Dates and times of day, which a settings file may hold. The usual form of a moment orders its
parts from the largest to the smallest; its literal form names its kind and leaves out seconds
and millionths that are zero at the end.
-/

namespace SattLine

structure Day where
  year : Nat
  month : Nat
  day : Nat
  deriving DecidableEq, Repr

/-- A time of day, down to millionths of a second. -/
structure Clock where
  hour : Nat
  minute : Nat
  second : Nat
  micros : Nat
  deriving DecidableEq, Repr

/-- A day, a time of day, or both. `offset` says by how many minutes the clock is ahead of the
reference clock. -/
inductive Moment where
  | day (day : Day)
  | clock (clock : Clock)
  | both (day : Day) (clock : Clock) (offset : Option Int)
  deriving DecidableEq, Repr

def padded (width n : Nat) : String :=
  let text := toString n
  String.ofList (List.replicate (width - text.length) '0') ++ text

namespace Day

def isLeap (year : Nat) : Bool :=
  year % 4 == 0 && (year % 100 != 0 || year % 400 == 0)

def countIn (year month : Nat) : Nat :=
  if month == 2 then (if isLeap year then 29 else 28)
  else if [4, 6, 9, 11].contains month then 30
  else 31

def text (d : Day) : String :=
  padded 4 d.year ++ "-" ++ padded 2 d.month ++ "-" ++ padded 2 d.day

def parts (d : Day) : List Nat :=
  [d.year, d.month, d.day]

end Day

namespace Clock

def text (c : Clock) : String :=
  let fraction := if c.micros == 0 then "" else "." ++ padded 6 c.micros
  padded 2 c.hour ++ ":" ++ padded 2 c.minute ++ ":" ++ padded 2 c.second ++ fraction

def parts (c : Clock) : List Nat :=
  [c.hour, c.minute] ++
    if c.micros != 0 then [c.second, c.micros] else if c.second != 0 then [c.second] else []

end Clock

namespace Moment

def offsetText (offset : Int) : String :=
  let minutes := offset.natAbs
  (if offset < 0 then "-" else "+") ++ padded 2 (minutes / 60) ++ ":" ++ padded 2 (minutes % 60)

/-- The literal form of an offset: seconds, counted from the day before if it is negative. -/
def offsetLiteral (offset : Int) : String :=
  if offset == 0 then "datetime.timezone.utc"
  else
    let span :=
      if offset < 0 then "days=-1, seconds=" ++ toString (offset * 60 + 86400)
      else "seconds=" ++ toString (offset * 60)
    "datetime.timezone(datetime.timedelta(" ++ span ++ "))"

def text : Moment → String
  | .day d => d.text
  | .clock c => c.text
  | .both d c offset => d.text ++ " " ++ c.text ++ (offset.map offsetText).getD ""

def kindName : Moment → String
  | .day _ => "date"
  | .clock _ => "time"
  | .both _ _ _ => "datetime"

def parts : Moment → List String
  | .day d => d.parts.map toString
  | .clock c => c.parts.map toString
  | .both d c offset => (d.parts ++ c.parts).map toString ++
    (offset.map fun offset => "tzinfo=" ++ offsetLiteral offset).toList

def literal (m : Moment) : String :=
  "datetime." ++ m.kindName ++ "(" ++ ", ".intercalate m.parts ++ ")"

end Moment

end SattLine
