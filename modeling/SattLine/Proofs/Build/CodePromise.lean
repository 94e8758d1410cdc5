import SattLine.Proofs.Build.Promise
import SattLine.Proofs.Usage.Located

/-!
The rules of code keep their promises. Main statement: nothing in an expression, a statement or a
node of a sequence has the wrong shape, however deep it stands, because all that is found in code are
its references and these have names that can be read.
-/

namespace SattLine.Build

open Grammar (Rule rules codeRules sequenceRules)
open Syntax (Tree)
open Usage (Faultless Operand expression faultless_expressions faultless_flatMap faultless_accesses
  located foundAt map_snd_locatedAt exact_expression exact_instruction exact_node exact_sequence
  exact_equation)

/-- The rules whose values are operands. -/
def operandNames : List String := [
  "value", "variable_name", "connected_variable", "expression", "or_expression", "and_expression",
  "not_expression", "comparison_expression", "additive_expression", "multiplicative_expression",
  "unary_expression", "ternary_if", "function_call", "term", "enable_expression", "invar"]

theorem IsLiteral.operand {v : Value} (h : IsLiteral v) : Operand v := by
  rcases h with ⟨b, rfl⟩ | ⟨n, rfl⟩ | ⟨x, rfl⟩ | ⟨s, rfl⟩ <;> constructor

theorem IsReference.operand {v : Value} (h : IsReference v) : Operand v := by
  obtain ⟨keys, values, rfl, href, hname, -⟩ := h
  exact .reference href hname

theorem Built.operand {name : String} {tree : Tree} {v : Value} (h : Built name tree v)
    (hname : name ∈ operandNames) : Operand v := by
  simp only [operandNames, List.mem_cons, List.not_mem_nil, or_false] at hname
  rcases hname with rfl | rfl | rfl | rfl | rfl | rfl | rfl | rfl | rfl | rfl | rfl | rfl | rfl |
    rfl | rfl | rfl
  · exact (h.keeps ofLiteral (by repeat constructor)).1.operand
  · exact (h.keeps ofReference (by repeat constructor)).1.operand
  · exact (h.keeps ofConnected (by repeat constructor)).1
  all_goals exact h.keeps (valued Operand) (by repeat constructor)

section Forms

variable {v : Value} {items : List Value}

/-- What is found in the references of a value. -/
theorem Referring.faultless (h : Referring v) : Faultless ((located v).flatMap foundAt) := by
  refine faultless_flatMap.mpr fun place hplace => ?_
  have hmem : place.2 ∈ references v := by
    rw [← map_snd_locatedAt .elsewhere v]
    exact List.mem_map_of_mem hplace
  obtain ⟨_, _, -, -, hname, -⟩ := h place.2 hmem
  exact faultless_accesses hname _ _

theorem IsLiteral.fine (h : IsLiteral v) : Fine v := by
  rcases h with ⟨_, rfl⟩ | ⟨_, rfl⟩ | ⟨_, rfl⟩ | ⟨_, rfl⟩ <;> exact .plain rfl

theorem IsReference.fine (h : IsReference v) : Fine v := by
  obtain ⟨keys, values, rfl, -, hname, hplain⟩ := h
  refine .dict hname fun x hx => ?_
  rcases hplain x hx with rfl | ⟨s, rfl⟩ <;> exact .plain rfl

theorem IsExpression.fine (h : IsExpression v) : Fine v := by
  cases h with
  | literal h | reference h => exact h.fine
  | _ => exact .plain rfl

theorem IsExpression.operand (h : IsExpression v) : Operand v := by
  have hfaultless : Faultless (expression v) := exact_expression h ▸ h.referring.faultless
  cases h with
  | literal h | reference h => exact h.operand
  | _ => exact .operation hfaultless

theorem IsInstruction.fine (h : IsInstruction v) : Fine v := by
  cases h <;> exact .plain rfl

theorem IsInstruction.performs (h : IsInstruction v) : Performs v := by
  rw [Performs, exact_instruction h]
  exact h.referring.faultless

theorem IsActionOf.fine {key : String} (hkey : key ≠ "var_name") (h : IsActionOf key v) :
    Fine v ∧ IsAction v := by
  obtain ⟨block, rfl, hblock⟩ := h
  refine ⟨.dict ⟨none, ?_⟩ ?_, key, block, rfl, fun x hx => (hblock x hx).performs⟩
  · simp [Usage.baseName, Usage.fullName?, Value.get?, Value.text?, hkey]
  · exact AllFine.cons (.list fun x hx => (hblock x hx).fine) .nil

theorem IsNode.fine (h : IsNode v) : Fine v := by
  have hreferring := h.referring
  obtain ⟨kind, fields, rfl, hnode⟩ := exact_node h
  have hfaultless : Faultless (Usage.node kind fields) := hnode ▸ hreferring.faultless
  refine .element ?_
  cases h with
  | branched hkind _ | nested hkind _ _ => rcases hkind with rfl | rfl <;> exact hfaultless
  | _ => exact hfaultless

theorem IsSequence.fine (h : IsSequence v) : Fine v := by
  have hfaultless : Faultless (Usage.sequence v) := exact_sequence h ▸ h.referring.faultless
  obtain ⟨_, _, _, _, _, _, _, _, _, rfl, -⟩ := h
  exact .element hfaultless

theorem IsEquation.fine (h : IsEquation v) : Fine v := by
  have hfaultless : Faultless (Usage.equation v) := exact_equation h ▸ h.referring.faultless
  obtain ⟨_, _, _, _, _, _, rfl, -⟩ := h
  exact .element hfaultless

theorem fine_codeBlocks {enter active exit : List Value} (henter : ∀ x ∈ enter, IsInstruction x)
    (hactive : ∀ x ∈ active, IsInstruction x) (hexit : ∀ x ∈ exit, IsInstruction x) :
    Fine (.element .codeBlocks [.list enter, .list active, .list exit]) := by
  refine .element ⟨enter, active, exit, rfl, ?_⟩
  simp only [Usage.faultless_append, faultless_expressions]
  exact ⟨⟨fun x hx => (henter x hx).performs, fun x hx => (hactive x hx).performs⟩,
    fun x hx => (hexit x hx).performs⟩

theorem fine_moduleCode (h : AllFine items) : Fine (moduleCode items) := by
  have hsequences : ∀ v ∈ items, v.isElement .sequence = true → Faultless (Usage.sequence v) := by
    intro v hv hkind
    obtain ⟨fields, rfl, hsound⟩ := (h v hv).of_isElement hkind
    exact hsound
  have hequations : ∀ v ∈ items, v.isElement .equation = true → Faultless (Usage.equation v) := by
    intro v hv hkind
    obtain ⟨fields, rfl, hsound⟩ := (h v hv).of_isElement hkind
    exact hsound
  refine .element ?_
  simpa [SoundElement, Usage.code, Usage.inItems, Value.elements, Usage.faultless_flatMap] using
    ⟨hsequences, hequations⟩

end Forms

section Rules

variable {rule : Rule}

variable {tree : Tree} {v : Value}

/-- A rule whose values have a form that meets the promise. -/
theorem keptBy {promise : Promise} (hname : rule.name ∈ codeNames)
    (h : ∀ {tree v}, HasForm rule.name v → Fine v ∧ promise tree v) :
    KeptBy rule (rule.name, promise) :=
  ⟨rfl, fun hmem => .of_form hmem hname h⟩

theorem IsExpression.kept (h : IsExpression v) : Fine v ∧ valued Operand tree v :=
  ⟨h.fine, h.operand⟩

theorem IsInstruction.kept (h : IsInstruction v) : Fine v ∧ valued Performs tree v :=
  ⟨h.fine, h.performs⟩

theorem IsNode.kept (h : IsNode v) : Fine v ∧ noPromise tree v :=
  ⟨h.fine, trivial⟩

theorem IsPlace.kept (h : IsPlace v) : Fine v ∧ valued IsPlace tree v := by
  obtain ⟨x, y, rfl⟩ := h
  exact ⟨.plain rfl, x, y, rfl⟩

end Rules

theorem codeRules_kept : List.Forall₂ KeptBy codeRules codePromises := by
  refine .cons ⟨rfl, fun _ => ?moduleCode⟩ <| .cons (keptBy ?_ IsExpression.kept) <|
    .cons (keptBy ?_ IsExpression.kept) <| .cons (keptBy ?_ IsExpression.kept) <|
    .cons (keptBy ?_ IsExpression.kept) <| .cons (keptBy ?_ IsExpression.kept) <|
    .cons (keptBy ?_ IsExpression.kept) <| .cons (keptBy ?_ IsExpression.kept) <|
    .cons (keptBy ?_ IsExpression.kept) <| .cons (keptBy ?_ IsExpression.kept) <|
    .cons ⟨rfl, fun hmem => ?call⟩ <| .cons ⟨rfl, fun hmem => ?arguments⟩ <|
    .cons (keptBy ?_ IsExpression.kept) <| .cons ⟨rfl, fun hmem => ?statement⟩ <|
    .cons (keptBy ?_ IsInstruction.kept) <| .cons (keptBy ?_ IsInstruction.kept) <|
    .cons ⟨rfl, fun hmem => ?equation⟩ .nil
  case moduleCode => exact .of_fine (by repeat constructor) fun _ => fine_moduleCode
  case call =>
    refine .of_form hmem (by decide) fun hform => ?_
    obtain ⟨name, arguments, rfl, harguments⟩ := hform
    have hcall : IsExpression (callOf name arguments) := .called harguments
    exact ⟨hcall.fine, hcall.operand⟩
  case arguments =>
    refine .of_form hmem (by decide) fun hform => ?_
    obtain ⟨arguments, rfl, harguments⟩ := hform
    exact ⟨.list fun x hx => (harguments x hx).fine, arguments, rfl,
      fun x hx => (harguments x hx).operand⟩
  case statement =>
    refine .of_form hmem (by decide) fun hform => ?_
    obtain ⟨x, rfl, hx⟩ := hform
    exact ⟨.tree (AllFine.cons hx.fine .nil), x, rfl, hx.performs⟩
  case equation =>
    exact .of_form hmem (by decide) fun hform => ⟨IsEquation.fine hform, trivial⟩
  all_goals decide

theorem sequenceRules_kept : List.Forall₂ KeptBy sequenceRules sequencePromises := by
  refine .cons ⟨rfl, fun hmem => ?sequence⟩ <| .cons ⟨rfl, fun hmem => ?body⟩ <|
    .cons (keptBy ?_ IsNode.kept) <| .cons ⟨rfl, fun hmem => ?control⟩ <|
    .cons (keptBy ?_ IsPlace.kept) <| .cons (keptBy ?_ IsPlace.kept) <|
    .cons (keptBy ?_ IsNode.kept) <| .cons (keptBy ?_ IsNode.kept) <|
    .cons (keptBy ?_ IsNode.kept) <| .cons (keptBy ?_ IsNode.kept) <|
    .cons (keptBy ?_ IsNode.kept) <| .cons (keptBy ?_ IsNode.kept) <|
    .cons (keptBy ?_ IsNode.kept) <| .cons (keptBy ?_ IsNode.kept) <|
    .cons (keptBy ?_ IsNode.kept) <| .cons ⟨rfl, fun hmem => ?blocks⟩ <|
    .cons (keptBy ?_ (IsActionOf.fine (show "enter" ≠ _ by decide))) <|
    .cons (keptBy ?_ (IsActionOf.fine (show "active" ≠ _ by decide))) <|
    .cons (keptBy ?_ (IsActionOf.fine (show "exit" ≠ _ by decide))) .nil
  case sequence =>
    exact .of_form hmem (by decide) fun hform => ⟨IsSequence.fine hform, trivial⟩
  case body =>
    refine .of_form hmem (by decide) fun hform => ?_
    obtain ⟨nodes, rfl, hnodes⟩ := hform
    exact ⟨.tree fun node hmem => (hnodes node hmem).fine, trivial⟩
  case control =>
    refine .of_form hmem (by decide) fun hform => ?_
    obtain ⟨controls, rfl, htokens⟩ := hform
    refine ⟨.tree fun x hx => .plain ?_, trivial⟩
    have htoken := htokens x hx
    cases x with
    | token kind s => rfl
    | _ => cases htoken
  case blocks =>
    refine .of_form hmem (by decide) fun hform => ?_
    obtain ⟨enter, active, exit, rfl, henter, hactive, hexit⟩ := hform
    exact ⟨fine_codeBlocks henter hactive hexit, trivial⟩
  all_goals decide

end SattLine.Build
