import SattLine.Value.Key

/-!
Parts of a value by the way to them.
-/

namespace SattLine.Value

/-- A step into a value: to a named part, or to an item. -/
inductive Step where
  | field (name : String)
  | item (index : Int)

/-- The item at a place; negative places count from the end. -/
def itemAt? (items : List α) (index : Int) : Option α :=
  if 0 ≤ index then items[index.toNat]?
  else if index.natAbs ≤ items.length then items[items.length - index.natAbs]?
  else none

/-- A named part of a value: a field of an element, or one of the few that other values have. -/
def named (v : Value) (name : String) : Except Fault Value :=
  match v, name with
  | .tree label _ _, "data" => .ok (.text label)
  | .tree _ _ children, "children" => .ok (.list children)
  | .token kind _, "type" => .ok (.text kind)
  | .token _ s, "value" => .ok (.text s)
  | .simpleType type, "value" => .ok (.text type.name)
  | v, name => v.field name

/-- The item at a place. A dictionary has no places, but a number may be one of its keys. -/
def item (v : Value) (index : Int) : Except Fault Value := do
  match v with
  | .dict keys values =>
    match (keys.zip values).find? fun entry => entry.1.key? == some (.number index 0) with
    | some (_, part) => return part
    | none => throw .missingKey
  | v =>
    match itemAt? (← v.elements) index with
    | some part => return part
    | none => throw .outOfRange

def step (v : Value) : Step → Except Fault Value
  | .field name => v.named name
  | .item index => v.item index

def reach (v : Value) (way : List Step) : Except Fault Value :=
  way.foldlM step v

end SattLine.Value
