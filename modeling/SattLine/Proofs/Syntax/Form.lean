import SattLine.Syntax.Parse

/-!
The syntax trees of the language, read off its rules alone: which trees a row of places in a rule
may leave. Repeated and optional parts leave their trees in the node that has them.
-/

namespace SattLine.Syntax

open Grammar (Part Rule Shape)

/-- What a rule of this shape leaves of the trees of its parts. -/
def leave (shape : Shape) (kept : List Tree) : List Tree :=
  match shape with
  | .children => kept
  | .node label => [.node label kept]
  | .collapsing label =>
    match kept with
    | [only] => [only]
    | _ => [.node label kept]

/-- The label of the nodes that a rule of this shape leaves. -/
def labelOf : Shape → String
  | .children => ""
  | .node label => label
  | .collapsing label => label

/-- The rule of a name. -/
def ruleNamed? (name : String) : Option Rule :=
  Grammar.rules.find? fun rule => rule.name == name

/-- `Forms row trees`: a row of places of a rule may leave these trees. -/
inductive Forms : List Part → List Tree → Prop
  | nil : Forms [] []
  | token {kind rest lexeme trees} (hkind : lexeme.kind = kind) (h : Forms rest trees) :
      Forms (.token kind :: rest) (.leaf lexeme :: trees)
  | mark {kind rest trees} (h : Forms rest trees) : Forms (.mark kind :: rest) trees
  | rule {name rule row rest inner trees} (hrule : ruleNamed? name = some rule)
      (hrow : row ∈ rule.alternatives) (hinner : Forms row inner) (h : Forms rest trees) :
      Forms (.rule name :: rest) (leave rule.shape inner ++ trees)
  | oneOf {alternatives row rest first trees} (hrow : row ∈ alternatives)
      (hfirst : Forms row first) (h : Forms rest trees) :
      Forms (.oneOf alternatives :: rest) (first ++ trees)
  | opt {alternatives row rest first trees} (hrow : row ∈ alternatives)
      (hfirst : Forms row first) (h : Forms rest trees) :
      Forms (.opt alternatives :: rest) (first ++ trees)
  | skip {alternatives rest trees} (h : Forms rest trees) :
      Forms (.opt alternatives :: rest) trees
  | more {alternatives row rest first trees} (hrow : row ∈ alternatives)
      (hfirst : Forms row first) (h : Forms (.many alternatives :: rest) trees) :
      Forms (.many alternatives :: rest) (first ++ trees)
  | stop {alternatives rest trees} (h : Forms rest trees) :
      Forms (.many alternatives :: rest) trees
  | some1 {alternatives row rest first trees} (hrow : row ∈ alternatives)
      (hfirst : Forms row first) (h : Forms (.many alternatives :: rest) trees) :
      Forms (.some1 alternatives :: rest) (first ++ trees)

/-- A syntax tree of the rule of that name. -/
def IsOf (name : String) (tree : Tree) : Prop :=
  Forms [.rule name] [tree]

variable {name : String} {rule : Rule} {row : List Part} {tree : Tree} {names : List String}

theorem IsOf.of_row {inner : List Tree} (hrule : ruleNamed? name = some rule)
    (hrow : row ∈ rule.alternatives) (h : Forms row inner)
    (hleave : leave rule.shape inner = [tree]) : IsOf name tree := by
  have hforms := Forms.rule hrule hrow h .nil
  rwa [hleave] at hforms

theorem IsOf.parts (h : IsOf name tree) :
    ∃ rule row inner, ruleNamed? name = some rule ∧ row ∈ rule.alternatives ∧ Forms row inner ∧
      leave rule.shape inner = [tree] := by
  unfold IsOf at h
  generalize hparts : [Part.rule name] = parts, htrees : [tree] = trees at h
  cases h with
  | @rule _ rule row _ inner _ hrule hrow hinner hrest =>
    cases hparts
    cases hrest
    exact ⟨rule, row, inner, hrule, hrow, hinner, by simp⟩
  | _ => cases hparts

theorem Forms.cons {rest : List Part} {trees : List Tree} (h : IsOf name tree)
    (hrest : Forms rest trees) : Forms (.rule name :: rest) (tree :: trees) := by
  obtain ⟨rule, row, inner, hrule, hrow, hinner, hleave⟩ := h.parts
  have hforms := Forms.rule hrule hrow hinner hrest
  rwa [hleave] at hforms

mutual

/-- The lexemes of a tree. -/
def lexemes : Tree → List Token
  | .leaf lexeme => [lexeme]
  | .node _ children => lexemesIn children

def lexemesIn : List Tree → List Token
  | [] => []
  | tree :: rest => lexemes tree ++ lexemesIn rest

end

@[simp] theorem lexemesIn_append (first rest : List Tree) :
    lexemesIn (first ++ rest) = lexemesIn first ++ lexemesIn rest := by
  induction first with
  | nil => simp [lexemesIn]
  | cons tree more ih => simp [lexemesIn, ih]

@[simp] theorem lexemesIn_leave (shape : Shape) (kept : List Tree) :
    lexemesIn (leave shape kept) = lexemesIn kept := by
  unfold leave
  split
  · rfl
  · simp [lexemesIn, lexemes]
  · split
    · rfl
    · simp [lexemesIn, lexemes]

set_option maxRecDepth 4000 in
theorem shape_ne_children : ∀ rule ∈ Grammar.rules, rule.shape ≠ .children := by
  decide

theorem leave_eq (h : ruleNamed? name = some rule) (inner : List Tree) :
    ∃ tree, leave rule.shape inner = [tree] ∧
      (tree = .node (labelOf rule.shape) inner ∨
        inner = [tree] ∧ ∃ label, rule.shape = .collapsing label) := by
  have hshape := shape_ne_children rule (List.mem_of_find?_eq_some h)
  cases hrule : rule.shape with
  | children => exact absurd hrule hshape
  | node label => exact ⟨_, rfl, .inl rfl⟩
  | collapsing label =>
    match inner with
    | [] => exact ⟨_, rfl, .inl rfl⟩
    | [only] => exact ⟨_, rfl, .inr ⟨rfl, label, rfl⟩⟩
    | _ :: _ :: _ => exact ⟨_, rfl, .inl rfl⟩

mutual

/-- Whether a place of a rule has only rules of the given names. -/
def within (names : List String) : Part → Bool
  | .token _ => true
  | .mark _ => true
  | .rule name => names.contains name
  | .oneOf alternatives | .opt alternatives | .many alternatives | .some1 alternatives =>
    alternativesWithin names alternatives

def rowWithin (names : List String) : List Part → Bool
  | [] => true
  | part :: rest => within names part && rowWithin names rest

def alternativesWithin (names : List String) : List (List Part) → Bool
  | [] => true
  | row :: rest => rowWithin names row && alternativesWithin names rest

end

theorem rowWithin_of_mem {alternatives : List (List Part)}
    (h : alternativesWithin names alternatives = true) (hrow : row ∈ alternatives) :
    rowWithin names row = true := by
  induction alternatives with
  | nil => simp at hrow
  | cons first rest ih =>
    simp only [alternativesWithin, Bool.and_eq_true] at h
    rcases List.mem_cons.mp hrow with rfl | hrow
    · exact h.1
    · exact ih h.2 hrow

/-- What can be checked of the rules of some names. -/
theorem of_ruleNamed {p : Rule → Bool} (hall : ∀ name ∈ names, (ruleNamed? name).all p = true)
    (hname : name ∈ names) (hrule : ruleNamed? name = some rule) : p rule = true := by
  simpa [hrule] using hall name hname

/-- A lexeme at the beginning of a text. -/
def word (kind text : String) : Tree :=
  .leaf ⟨kind, text, 1, 1⟩

def variableTree (name : String) : Tree :=
  .node "variable_name" [word "NAME" name]

end SattLine.Syntax
