import SattLine.Proofs.Syntax.Form
import SattLine.Proofs.Syntax.Lexeme

/-!
A check of syntax trees: the rows of the rules are tried against the trees, with every way to go on
behind each part. Main statement: trees that pass the check are trees of the language. The lexemes
in them are checked against the terminals.
-/

namespace SattLine.Syntax

open List
open Grammar (Part Shape)

/-- The trees of parts of which a rule of that shape leaves the tree. -/
def keptIn : Shape → Tree → List (List Tree)
  | .node label, .node other children => if other = label then [children] else []
  | .collapsing label, .node other children =>
    [.node other children] :: if other = label ∧ children.length ≠ 1 then [children] else []
  | .collapsing _, .leaf lexeme => [[.leaf lexeme]]
  | _, _ => []

/-- What may be left of the trees behind those of a row of places, as far as `steps` go. -/
def behind : Nat → List Part → List Tree → List (List Tree)
  | 0, _, _ => []
  | steps + 1, row, trees =>
    let round (alternatives : List (List Part)) (next : List Part) :=
      alternatives.flatMap fun row => (behind steps row trees).flatMap (behind steps next)
    match row, trees with
    | [], trees => [trees]
    | .token kind :: rest, .leaf lexeme :: trees =>
      if lexeme.kind = kind then behind steps rest trees else []
    | .mark _ :: rest, trees => behind steps rest trees
    | .rule name :: rest, tree :: trees =>
      match ruleNamed? name with
      | none => []
      | some rule =>
        if (keptIn rule.shape tree).any fun kept =>
          rule.alternatives.any fun row => (behind steps row kept).any isEmpty
        then behind steps rest trees else []
    | .oneOf alternatives :: rest, _ => round alternatives rest
    | .opt alternatives :: rest, trees => behind steps rest trees ++ round alternatives rest
    | .many alternatives :: rest, trees =>
      behind steps rest trees ++ round alternatives (.many alternatives :: rest)
    | .some1 alternatives :: rest, _ => round alternatives (.many alternatives :: rest)
    | _, _ => []

theorem leave_of_mem_keptIn {shape : Shape} {tree : Tree} {kept : List Tree}
    (h : kept ∈ keptIn shape tree) : leave shape kept = [tree] := by
  match shape, tree with
  | .node label, .node other children =>
    simp only [keptIn, mem_ite_nil_right, mem_singleton] at h
    obtain ⟨rfl, rfl⟩ := h
    rfl
  | .collapsing label, .node other children =>
    rcases mem_cons.mp h with rfl | h
    · rfl
    · simp only [mem_ite_nil_right, mem_singleton] at h
      obtain ⟨⟨rfl, hlength⟩, rfl⟩ := h
      match kept, hlength with
      | [], _ | _ :: _ :: _, _ => rfl
  | .collapsing label, .leaf lexeme =>
    cases mem_singleton.mp h
    rfl
  | .node _, .leaf _ | .children, .leaf _ | .children, .node _ _ => cases h

/-- What stands in front of the trees that are left is what the row may leave. -/
theorem forms_of_mem_behind {steps : Nat} : ∀ {row : List Part} {trees left : List Tree},
    left ∈ behind steps row trees → ∃ front, trees = front ++ left ∧ Forms row front := by
  induction steps with
  | zero => simp [behind]
  | succ steps ih =>
    intro row trees left h
    have hround : ∀ {alternatives : List (List Part)} {next : List Part},
        left ∈ (alternatives.flatMap fun row => (behind steps row trees).flatMap (behind steps next)) →
        ∃ row ∈ alternatives, ∃ first front, trees = first ++ front ++ left ∧ Forms row first ∧
          Forms next front := by
      intro alternatives next hmem
      obtain ⟨row, hrow, hmem⟩ := mem_flatMap.mp hmem
      obtain ⟨between, hbetween, hnext⟩ := mem_flatMap.mp hmem
      obtain ⟨first, htrees, hfirst⟩ := ih hbetween
      obtain ⟨front, rfl, hfront⟩ := ih hnext
      exact ⟨row, hrow, first, front, by rw [htrees, append_assoc], hfirst, hfront⟩
    match row, trees with
    | [], trees => exact ⟨[], (mem_singleton.mp h).symm, .nil⟩
    | .token kind :: rest, .leaf lexeme :: trees =>
      simp only [behind, mem_ite_nil_right] at h
      obtain ⟨front, rfl, hfront⟩ := ih h.2
      exact ⟨.leaf lexeme :: front, rfl, .token h.1 hfront⟩
    | .mark kind :: rest, trees =>
      obtain ⟨front, rfl, hfront⟩ := ih h
      exact ⟨front, rfl, .mark hfront⟩
    | .rule name :: rest, tree :: trees =>
      simp only [behind] at h
      split at h
      · cases h
      · rename_i rule hrule
        simp only [mem_ite_nil_right, any_eq_true, List.isEmpty_iff, exists_eq_right] at h
        obtain ⟨⟨kept, hkept, row, hrow, hempty⟩, h⟩ := h
        obtain ⟨inner, hinner, hforms⟩ := ih hempty
        obtain rfl : kept = inner := by simpa using hinner
        obtain ⟨front, rfl, hfront⟩ := ih h
        exact ⟨tree :: front, rfl, .cons (.of_row hrule hrow hforms (leave_of_mem_keptIn hkept)) hfront⟩
    | .oneOf alternatives :: rest, trees =>
      obtain ⟨row, hrow, first, front, htrees, hfirst, hfront⟩ := hround h
      exact ⟨_, htrees, .oneOf hrow hfirst hfront⟩
    | .opt alternatives :: rest, trees =>
      rcases mem_append.mp h with h | h
      · obtain ⟨front, rfl, hfront⟩ := ih h
        exact ⟨front, rfl, .skip hfront⟩
      · obtain ⟨row, hrow, first, front, htrees, hfirst, hfront⟩ := hround h
        exact ⟨_, htrees, .opt hrow hfirst hfront⟩
    | .many alternatives :: rest, trees =>
      rcases mem_append.mp h with h | h
      · obtain ⟨front, rfl, hfront⟩ := ih h
        exact ⟨front, rfl, .stop hfront⟩
      · obtain ⟨row, hrow, first, front, htrees, hfirst, hfront⟩ := hround h
        exact ⟨_, htrees, .more hrow hfirst hfront⟩
    | .some1 alternatives :: rest, trees =>
      obtain ⟨row, hrow, first, front, htrees, hfirst, hfront⟩ := hround h
      exact ⟨_, htrees, .some1 hrow hfirst hfront⟩
    | .token _ :: _, [] | .token _ :: _, .node _ _ :: _ | .rule _ :: _, [] => cases h

theorem isOf_of_behind (steps : Nat) {name : String} {tree : Tree}
    (h : (behind steps [.rule name] [tree]).any isEmpty = true) : IsOf name tree := by
  obtain ⟨left, hleft, hempty⟩ := any_eq_true.mp h
  obtain ⟨front, htree, hforms⟩ := forms_of_mem_behind hleft
  rw [List.isEmpty_iff.mp hempty, append_nil] at htree
  rwa [IsOf, htree]

/-- Whether some terminal of the token's kind takes its whole text. -/
def Token.isWhole (token : Token) : Bool :=
  (Grammar.unboundedTerminals ++ Grammar.boundedTerminals).any fun terminal =>
    terminal.name == token.kind &&
      terminal.pattern.length? none token.text.toList == some token.text.toList.length

theorem lexed_of_isWhole {lexemes : List Token} (h : lexemes.all Token.isWhole = true) :
    ∀ lexeme ∈ lexemes, lexeme.Lexed := by
  intro lexeme hmem
  obtain ⟨terminal, hterminal, hwhole⟩ := any_eq_true.mp (all_eq_true.mp h lexeme hmem)
  simp only [Bool.and_eq_true, beq_iff_eq] at hwhole
  refine ⟨terminal, mem_terminals.mpr hterminal, hwhole.1.symm, .inl ⟨_, _, _, hwhole.2, ?_⟩⟩
  rw [take_length, String.ofList_toList]

end SattLine.Syntax
