import SattLine.Toml.Table

/-!
TOML documents. A table is opened once. What a list or a table on one line holds cannot be
changed later, and names that only lead to an entry cannot be opened as tables behind the
section that made them.
-/

namespace SattLine.Toml

structure Progress where
  data : Value := emptyTable
  /-- The section that entries belong to. -/
  header : List String := []
  /-- Tables that cannot be opened again. -/
  opened : List (List String) := []
  /-- Tables that become such behind this section. -/
  implied : List (List String) := []
  /-- Places that cannot be changed any more. -/
  closed : List (List String) := []

namespace Progress

/-- Behind a section, the tables that its dotted keys made count as opened. -/
def endSection (p : Progress) : Progress :=
  { p with opened := p.implied ++ p.opened, implied := [] }

def openTable? (p : Progress) (key : List String) : Option Progress := do
  guard !(p.opened.contains key || isClosed p.closed key)
  let data ← atPath? true some key p.data
  return { p with data := data, header := key, opened := key :: p.opened }

def appendTable (name : String) (table : Value) : Option Value :=
  match table.get? name with
  | none => some (table.put name (.list [emptyTable]))
  | some (.list items) => some (table.put name (.list (items ++ [emptyTable])))
  | some _ => none

/-- Opens one more table of a list. What was said of the tables below the one before it does not
count for the new one. -/
def openItem? (p : Progress) (key : List String) : Option Progress := do
  guard !(isClosed p.closed key)
  let data ← atPath? true (appendTable (key.getLast?.getD "")) key.dropLast p.data
  let outside (path : List String) : Bool := !(key.isPrefixOf path)
  return { p with
    data := data
    header := key
    opened := key :: p.opened.filter outside
    closed := p.closed.filter outside }

def enter? (p : Progress) (key : List String) (value : Value) : Option Progress := do
  let passed := (List.range (key.length - 1)).map fun i => p.header ++ key.take (i + 1)
  guard !(passed.any p.opened.contains)
  let parent := p.header ++ key.dropLast
  guard !(isClosed p.closed parent)
  let data ← atPath? true (Toml.enter? (key.getLast?.getD "") value) parent p.data
  return { p with
    data := data
    implied := passed ++ p.implied
    closed := if isNested value then (p.header ++ key) :: p.closed else p.closed }

end Progress

/-- Reads one statement: an entry, the head of a section, or nothing. -/
def statement? (p : Progress) (chars : List Char) : Option (Progress × List Char) :=
  match chars with
  | [] => some (p, [])
  | '[' :: '[' :: rest => do
    let (key, rest) ← key? rest.length (skipBlanks rest)
    let p ← p.endSection.openItem? key
    return (p, ← mark? ']' (← mark? ']' rest))
  | '[' :: rest => do
    let (key, rest) ← key? rest.length (skipBlanks rest)
    let p ← p.endSection.openTable? key
    return (p, ← mark? ']' rest)
  | c :: _ =>
    if c == '\n' || c == '#' then some (p, chars)
    else do
      let (key, rest) ← key? chars.length chars
      let rest ← mark? '=' rest
      let (value, rest) ← value? (2 * chars.length) (skipBlanks rest)
      return (← p.enter? key value, rest)

/-- Reads statements, each on a line of its own. The first argument bounds their number. -/
def statements? : Nat → Progress → List Char → Option Progress
  | 0, _, _ => none
  | limit + 1, p, chars => do
    let (p, rest) ← statement? p (skipBlanks chars)
    match ← skipComment? (skipBlanks rest) with
    | [] => return p
    | '\n' :: rest => statements? limit p rest
    | _ => none

/-- A carriage return in front of a newline does not count. -/
def dropReturns : List Char → List Char
  | '\r' :: '\n' :: rest => '\n' :: dropReturns rest
  | c :: rest => c :: dropReturns rest
  | [] => []

def parse? (text : String) : Option Value := do
  let chars := dropReturns text.toList
  return (← statements? (chars.length + 1) {} chars).data

end SattLine.Toml
