import SattLine.Value.Basic

/-!
Keys: what makes two values the same entry of a dictionary. Numbers are one key if they are one
number, whatever their kinds; texts and lexemes if they have the same characters. What can still
be changed (lists, dictionaries and elements) is no key.

Keys of one kind have an order: numbers by their size, texts by their characters, tuples by the
first parts in which they differ.
-/

namespace SattLine.Value

open Number

inductive Key where
  | null
  /-- The number `significand * 2 ^ exponent`. One number can be written in several ways. -/
  | number (significand exponent : Int)
  | infinite (negative : Bool)
  | undefined
  /-- A text; a lexeme has a kind as well. -/
  | text (kind : Option String) (text : String)
  | simpleType (type : SimpleType)
  | typeDefault
  | tuple (items : List Key)
  | tree (label : String) (children : List Key)
  deriving Inhabited

namespace Key

def ofDouble : Double → Key
  | .finite negative significand exponent =>
    .number (if negative then -(significand : Int) else significand) exponent
  | .infinite negative => .infinite negative
  | .undefined => .undefined

/-- Compares `a * 2 ^ i` with `b * 2 ^ j`. -/
def compareScaled (a i b j : Int) : Ordering :=
  let least := min i j
  compare (a * twoTo (i - least).toNat) (b * twoTo (j - least).toNat)

mutual

/-- Whether two keys name one entry. The undefined number is not even the same as itself. Two
lexemes must agree in their kinds; a text is the same as every lexeme with its characters. -/
def same : Key → Key → Bool
  | .null, .null => true
  | .number a i, .number b j => compareScaled a i b j == .eq
  | .infinite a, .infinite b => a == b
  | .text k s, .text l t => s == t && (k.isNone || l.isNone || k == l)
  | .simpleType a, .simpleType b => a == b
  | .typeDefault, .typeDefault => true
  | .tuple as, .tuple bs => sameAll as bs
  | .tree l as, .tree m bs => l == m && sameAll as bs
  | _, _ => false

def sameAll : List Key → List Key → Bool
  | [], [] => true
  | a :: as, b :: bs => same a b && sameAll as bs
  | _, _ => false

end

instance : BEq Key := ⟨same⟩

mutual

/-- Whether the first key comes before the second; `none` if the two have no order. -/
def isBefore? : Key → Key → Option Bool
  | .number a i, .number b j => some (compareScaled a i b j == .lt)
  | .number _ _, .infinite negative => some !negative
  | .infinite negative, .number _ _ => some negative
  | .infinite a, .infinite b => some (a && !b)
  | .undefined, .number _ _ | .undefined, .infinite _ | .undefined, .undefined
  | .number _ _, .undefined | .infinite _, .undefined => some false
  | .text _ s, .text _ t => some (s < t)
  | .tuple as, .tuple bs => areBefore? as bs
  | _, _ => none

/-- The first parts that differ decide. If there are none, the shorter tuple comes first. -/
def areBefore? : List Key → List Key → Option Bool
  | _, [] => some false
  | [], _ :: _ => some true
  | a :: as, b :: bs => if same a b then areBefore? as bs else isBefore? a b

end

/-- The place of a kind of keys among the others when a dictionary is laid out. -/
def rank : Key → Nat
  | .null => 0
  | .number _ _ => 1
  | .infinite _ => 1
  | .undefined => 1
  | .tree _ _ => 2
  | .typeDefault => 3
  | .text _ _ => 4
  | .tuple _ => 5
  | .simpleType _ => 6

/-- Whether the first key is laid out before the second. -/
def isAhead (a b : Key) : Bool :=
  (isBefore? a b).getD (a.rank < b.rank)

end Key

mutual

/-- The key that a value is, if it can be one. -/
def key? : Value → Option Key
  | .null => some .null
  | .bool b => some (.number (if b then 1 else 0) 0)
  | .int n => some (.number n 0)
  | .real x => some (Key.ofDouble x)
  | .text s => some (.text none s)
  | .token kind s => some (.text (some kind) s)
  | .tuple items => (keys? items).map .tuple
  | .tree label _ children => (keys? children).map (.tree label)
  | .simpleType type => some (.simpleType type)
  | .typeDefault => some .typeDefault
  | .moment _ | .list _ | .dict _ _ | .element _ _ => none

def keys? : List Value → Option (List Key)
  | [] => some []
  | v :: rest =>
    match key? v, keys? rest with
    | some key, some keys => some (key :: keys)
    | _, _ => none

end

def key (v : Value) : Except Fault Key :=
  match v.key? with
  | some key => .ok key
  | none => .error .wrongType

/-- The dictionary with a value under a key. A key that is there keeps its form and its place. -/
def enter (d key value : Value) : Except Fault Value := do
  let wanted ← key.key
  match d with
  | .dict keys values =>
    let isWanted (k : Value) := match k.key? with
      | some k => k.same wanted
      | none => false
    let (keys, values) := putIn isWanted key value keys values
    return .dict keys values
  | v => return v

/-- Enters several values one after the other. -/
def enterAll (d : Value) (entries : List (Value × Value)) : Except Fault Value :=
  entries.foldlM (fun d (key, value) => d.enter key value) d

/-- Entries in the order in which they are laid out. -/
def sortedByKey (entries : List (Value × α)) : List (Value × α) :=
  entries.mergeSort fun a b => match a.1.key?, b.1.key? with
    | some a, some b => !Key.isAhead b a
    | _, _ => true

end SattLine.Value
