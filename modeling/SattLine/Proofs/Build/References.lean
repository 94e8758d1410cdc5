import SattLine.Proofs.Build.Row

/-!
References to variables in syntax trees and in the values built from them. A tree refers to a
variable in each node of a variable name, a value in each dictionary with the name of one. Lexemes
refer to nothing.
-/

namespace SattLine.Build

open Syntax (Tree)

mutual

/-- The nodes of variable names in a tree, in the order of the text. -/
def variableNodes : Tree → List Tree
  | .leaf _ => []
  | .node label children =>
    if label == "variable_name" then [.node label children] else variableNodesIn children

def variableNodesIn : List Tree → List Tree
  | [] => []
  | tree :: rest => variableNodes tree ++ variableNodesIn rest

end

/-- The text of a part of a variable name. The words for the two states of a variable are no part of
it, and a lone colon is no name. -/
def partText : Tree → String
  | .leaf lexeme =>
    if lexeme.kind == "NAME" && lexeme.text != ":" then lexeme.text
    else if lexeme.kind == "DOT" then "."
    else ""
  | .node _ _ => ""

/-- The dotted name that the node of a variable name is written with. -/
def nameText : Tree → String
  | .leaf _ => ""
  | .node _ parts => String.join (parts.map partText)

mutual

/-- The references to variables in a value, from left to right. -/
def references : Value → List Value
  | .dict keys values =>
    if (Value.dict keys values).hasKey "var_name" then [.dict keys values]
    else referencesIn values
  | .list items | .tuple items => referencesIn items
  | .tree _ _ children => referencesIn children
  | .element _ fields => referencesIn fields
  | _ => []

def referencesIn : List Value → List Value
  | [] => []
  | v :: rest => references v ++ referencesIn rest

end

@[simp] theorem references_list (items : List Value) :
    references (.list items) = referencesIn items :=
  rfl

@[simp] theorem references_tuple (items : List Value) :
    references (.tuple items) = referencesIn items :=
  rfl

@[simp] theorem references_tree (label : String) (ofRule : Bool) (children : List Value) :
    references (.tree label ofRule children) = referencesIn children :=
  rfl

@[simp] theorem references_element (kind : Element) (fields : List Value) :
    references (.element kind fields) = referencesIn fields :=
  rfl

@[simp] theorem references_text (s : String) : references (.text s) = [] :=
  rfl

@[simp] theorem references_token (kind s : String) : references (.token kind s) = [] :=
  rfl

@[simp] theorem references_real (x : Number.Double) : references (.real x) = [] :=
  rfl

@[simp] theorem references_bool (b : Bool) : references (.bool b) = [] :=
  rfl

@[simp] theorem references_null : references .null = [] :=
  rfl

theorem references_entry {key : String} (hkey : key ≠ "var_name") (v : Value) :
    references (.dict [.text key] [v]) = references v := by
  simp [references, referencesIn, Value.hasKey, Value.get?, Value.text?, hkey]

@[simp] theorem referencesIn_nil : referencesIn [] = [] :=
  rfl

@[simp] theorem referencesIn_cons (v : Value) (rest : List Value) :
    referencesIn (v :: rest) = references v ++ referencesIn rest :=
  rfl

@[simp] theorem referencesIn_append (first rest : List Value) :
    referencesIn (first ++ rest) = referencesIn first ++ referencesIn rest := by
  induction first with
  | nil => simp
  | cons v more ih => simp [ih]

@[simp] theorem referencesIn_map {α : Type} (f : α → Value) (as : List α) :
    referencesIn (as.map f) = as.flatMap fun a => references (f a) := by
  induction as with
  | nil => rfl
  | cons a rest ih => simp [ih]

@[simp] theorem referencesIn_flatMap {α : Type} (f : α → List Value) (as : List α) :
    referencesIn (as.flatMap f) = as.flatMap fun a => referencesIn (f a) := by
  induction as with
  | nil => rfl
  | cons a rest ih => simp [ih]

@[simp] theorem flatMap_references (items : List Value) :
    items.flatMap references = referencesIn items := by
  induction items with
  | nil => rfl
  | cons v rest ih => simp [ih]

theorem referencesIn_eq_nil {items : List Value} (h : ∀ v ∈ items, references v = []) :
    referencesIn items = [] := by
  induction items with
  | nil => rfl
  | cons v rest ih =>
    obtain ⟨hv, hrest⟩ := List.forall_mem_cons.mp h
    rw [referencesIn_cons, hv, ih hrest, List.nil_append]

theorem references_of_isText {v : Value} (h : v.isText = true) : references v = [] := by
  cases v <;> simp_all [Value.isText, Value.text?]

theorem references_of_isToken {v : Value} (h : v.isToken = true) : references v = [] := by
  cases v <;> simp_all [Value.isToken]

theorem references_of_int {v : Value} (h : isInt v = true) : references v = [] := by
  cases v <;> simp_all [isInt, Value.int?, references]

theorem references_leaf {lexeme : Syntax.Token} {v : Value}
    (h : valueOf (.leaf lexeme) = .ok v) : references v = [] := by
  cases lexical_of_leaf h <;>
    simp [references, Value.ofEntries, Value.hasKey, Value.get?, Value.text?]

theorem referencesIn_withoutTokens (items : List Value) :
    referencesIn (withoutTokens items) = referencesIn items := by
  induction items with
  | nil => rfl
  | cons v rest ih =>
    by_cases hv : v.isToken = true
    · rw [withoutTokens, List.filter_cons_of_neg (by simp [hv]), referencesIn_cons,
        references_of_isToken hv]
      exact ih
    · rw [withoutTokens, List.filter_cons_of_pos (by simp [hv]), referencesIn_cons,
        referencesIn_cons]
      exact congrArg _ ih

theorem references_chain (op : String) (items : List Value) :
    references (chain op items) = referencesIn items := by
  rw [← referencesIn_withoutTokens items]
  unfold chain
  split
  · rename_i operand h
    simp [h]
  · simp

end SattLine.Build
