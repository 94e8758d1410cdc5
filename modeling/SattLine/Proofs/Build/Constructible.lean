import SattLine.Proofs.Build.ModuleCode

/-!
When a syntax tree has a value, said of the tree alone: its whole numbers are not too long, those
in coordinates are not too large, and every mark of a variable name in a text object follows a text.
-/

namespace SattLine.Build

open Number (Double digitLimit readInt?)
open Syntax (Tree lexemes digitsIn)

/-- The whole numbers in a tree are in the range of the reals. -/
def InRange (tree : Tree) : Prop :=
  ∀ lexeme ∈ lexemes tree, lexeme.kind = "SIGNED_INT" → ∀ n, readInt? lexeme.text = some n →
    (Double.ofInt? n).isSome = true

/-- The text that a part of a text object stands for. -/
def textOf? : Tree → Option String
  | .leaf lexeme => some lexeme.text
  | .node label children =>
    match children with
    | [.leaf lexeme] => if label == "text_content" then some (unquoted lexeme.text) else none
    | _ => none

/-- The nearest part that is not an empty text is a text. The parts are given from the nearest
on. -/
def FollowsText : List Tree → Prop
  | [] => True
  | tree :: before => ∃ text, textOf? tree = some text ∧ (text = "" → FollowsText before)

/-- A node can be constructed once its parts are. -/
structure Assembles (label : String) (parts : List Tree) : Prop where
  range : label ∈ ["coordinates", "invoke_coord"] →
    ∀ tree ∈ parts, hasLabel "coord_invar_tail" tree = true → InRange tree
  texts : label = "text_object" → ∀ before lexeme after, parts = before ++ Tree.leaf lexeme :: after →
    lexeme.kind = "VARNAME" → FollowsText before.reverse

mutual

/-- A tree can be given a value. -/
def Constructible : Tree → Prop
  | .leaf lexeme => lexeme.kind = "SIGNED_INT" → digitsIn lexeme.text ≤ digitLimit
  | .node label children => AllConstructible children ∧ Assembles label children

def AllConstructible : List Tree → Prop
  | [] => True
  | tree :: rest => Constructible tree ∧ AllConstructible rest

end

theorem allConstructible_append {first rest : List Tree} :
    AllConstructible (first ++ rest) ↔ AllConstructible first ∧ AllConstructible rest := by
  induction first with
  | nil => simp [AllConstructible]
  | cons tree more ih => simp [AllConstructible, ih, and_assoc]

theorem allConstructible_singleton {tree : Tree} :
    AllConstructible [tree] ↔ Constructible tree := by
  simp [AllConstructible]

end SattLine.Build
