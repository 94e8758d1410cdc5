import SattLine.Toml.Number
import SattLine.Toml.Text

/-!
Values of a TOML document, and tables that keep their entries in the order in which they are
written.
-/

namespace SattLine.Toml

def emptyTable : Value := .dict [] []

/-- Changes the table at the end of a path; tables that are not there are made. With `lists`, a
list on the path stands for its last table. -/
def atPath? (lists : Bool) (change : Value → Option Value) : List String → Value → Option Value
  | [], .dict keys values => change (.dict keys values)
  | [], _ => none
  | key :: path, table =>
    match (table.get? key).getD emptyTable with
    | .dict keys values => do
      return table.put key (← atPath? lists change path (.dict keys values))
    | .list items =>
      match lists, items.getLast? with
      | true, some (.dict keys values) => do
        let last ← atPath? lists change path (.dict keys values)
        return table.put key (.list (items.dropLast ++ [last]))
      | _, _ => none
    | _ => none

/-- Enters a value under a name that is new. -/
def enter? (name : String) (value : Value) (table : Value) : Option Value :=
  if table.hasKey name then none else some (table.put name value)

def isNested : Value → Bool
  | .dict _ _ => true
  | .list _ => true
  | _ => false

/-- Whether one of the names of a key was closed by a value before it. -/
def isClosed (closed : List (List String)) (key : List String) : Bool :=
  closed.any fun path => path.isPrefixOf key

mutual

/-- A value. The first argument bounds the number of steps. -/
def value? : Nat → List Char → Option (Value × List Char)
  | 0, _ => none
  | steps + 1, chars =>
    match chars with
    | '"' :: _ | '\'' :: _ => (string? chars).map fun (text, rest) => (.text text, rest)
    | 't' :: 'r' :: 'u' :: 'e' :: rest => some (.bool true, rest)
    | 'f' :: 'a' :: 'l' :: 's' :: 'e' :: rest => some (.bool false, rest)
    | '[' :: rest => do
      match ← skipFiller? false rest with
      | ']' :: rest => return (.list [], rest)
      | rest =>
        let (items, rest) ← items? steps rest
        return (.list items, rest)
    | '{' :: rest =>
      match skipBlanks rest with
      | '}' :: rest => some (emptyTable, rest)
      | rest => entries? steps [] emptyTable rest
    | _ => ((moment? chars).map fun (moment, rest) => (.moment moment, rest)).or (number? chars)

/-- The items of a list up to its closing bracket; a comma may stand behind the last. -/
def items? : Nat → List Char → Option (List Value × List Char)
  | 0, _ => none
  | steps + 1, chars => do
    let (item, rest) ← value? steps chars
    match ← skipFiller? false rest with
    | ']' :: rest => return ([item], rest)
    | ',' :: rest =>
      match ← skipFiller? false rest with
      | ']' :: rest => return ([item], rest)
      | rest =>
        let (items, rest) ← items? steps rest
        return (item :: items, rest)
    | _ => none

/-- The entries of a table on one line up to its closing brace. -/
def entries? : Nat → List (List String) → Value → List Char → Option (Value × List Char)
  | 0, _, _, _ => none
  | steps + 1, closed, table, chars => do
    let (key, rest) ← key? chars.length chars
    let rest ← mark? '=' rest
    let (value, rest) ← value? steps (skipBlanks rest)
    guard !(isClosed closed key)
    let table ← atPath? false (enter? (key.getLast?.getD "") value) key.dropLast table
    match skipBlanks rest with
    | '}' :: rest => return (table, rest)
    | ',' :: rest =>
      entries? steps (if isNested value then key :: closed else closed) table (skipBlanks rest)
    | _ => none

end

end SattLine.Toml
