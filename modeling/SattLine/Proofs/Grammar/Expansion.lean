import SattLine.Grammar.Rules
import SattLine.Grammar.Terminals

/-!
The productions of a list of rules. Main statement: every production belongs to a row of one of the
rules or to a round of one of the repeated parts.
-/

namespace SattLine.Grammar

open List

theorem repetitionNumber_spec (known : List Rounds) (rounds : Rounds) :
    known <+: (repetitionNumber known rounds).2 ∧
      (repetitionNumber known rounds).2[(repetitionNumber known rounds).1]? = some rounds := by
  rw [repetitionNumber]
  cases hfind : known.findIdx? (· == rounds) with
  | some number =>
    obtain ⟨hnumber, hrounds, -⟩ := List.findIdx?_eq_some_iff_getElem.mp hfind
    simp only [beq_iff_eq] at hrounds
    exact ⟨prefix_rfl, List.getElem?_eq_some_iff.mpr ⟨hnumber, hrounds⟩⟩
  | none => exact ⟨prefix_append _ _, by simp⟩

mutual

/-- Repeated parts keep their numbers while more of them are met. -/
theorem Part.prefix_sequences (known : List Rounds) : (part : Part) →
    known <+: (part.sequences known).2
  | .token _ | .mark _ | .rule _ => prefix_rfl
  | .oneOf alternatives | .opt alternatives => prefix_alternativeSequences known alternatives
  | .many alternatives | .some1 alternatives =>
    (prefix_alternativeSequences known alternatives).trans (repetitionNumber_spec _ _).1

theorem prefix_rowSequences (known : List Rounds) : (row : List Part) →
    known <+: (rowSequences known row).2
  | [] => prefix_rfl
  | part :: rest => (part.prefix_sequences known).trans (prefix_rowSequences _ rest)

theorem prefix_alternativeSequences (known : List Rounds) : (alternatives : List (List Part)) →
    known <+: (alternativeSequences known alternatives).2
  | [] => prefix_rfl
  | row :: rest => (prefix_rowSequences known row).trans (prefix_alternativeSequences _ rest)

end

theorem getElem?_repetitionNumber {known all : List Rounds} {rounds : Rounds}
    (hall : (repetitionNumber known rounds).2 <+: all) :
    all[(repetitionNumber known rounds).1]? = some rounds := by
  have hspec := (repetitionNumber_spec known rounds).2
  obtain ⟨more, rfl⟩ := hall
  rwa [← List.getElem?_append_left (List.getElem?_eq_some_iff.mp hspec).1] at hspec

/-- A production of a row of a rule. -/
def Production.OfRule (repetitions : List Rounds) (production : Production) (rule : Rule) : Prop :=
  ∃ known, (alternativeSequences known rule.alternatives).2 <+: repetitions ∧
    ∃ sequence ∈ (alternativeSequences known rule.alternatives).1,
      production = ⟨.rule rule.name, sequence, rule.shape⟩

/-- A production of a round of a repeated part. -/
def Production.OfRepetition (repetitions : List Rounds) (production : Production) (number : Nat) :
    Prop :=
  ∃ rounds, repetitions[number]? = some rounds ∧ ∃ round ∈ rounds,
    production = ⟨.repetition number, round, .children⟩ ∨
      production = ⟨.repetition number, .repetition number :: round, .children⟩

theorem prefix_ruleProductions (known : List Rounds) (rules : List Rule) :
    known <+: (ruleProductions known rules).2 := by
  induction rules generalizing known with
  | nil => exact prefix_rfl
  | cons rule rest ih => exact (prefix_alternativeSequences known _).trans (ih _)

variable {rules : List Rule} {production : Production} {rule : Rule}

theorem mem_ruleProductions {known all : List Rounds}
    (hall : (ruleProductions known rules).2 <+: all)
    (h : production ∈ (ruleProductions known rules).1) :
    ∃ rule ∈ rules, production.OfRule all rule := by
  induction rules generalizing known with
  | nil => simp [ruleProductions] at h
  | cons rule rest ih =>
    rcases mem_append.mp h with h | h
    · obtain ⟨sequence, hsequence, rfl⟩ := mem_map.mp h
      refine ⟨rule, mem_cons_self, known, ?_, sequence, mem_eraseDups.mp hsequence, rfl⟩
      exact (prefix_ruleProductions _ rest).trans hall
    · obtain ⟨other, hother, hof⟩ := ih hall h
      exact ⟨other, mem_cons_of_mem _ hother, hof⟩

/-- All repeated parts of a list of rules. -/
def repetitionsOf (rules : List Rule) : List Rounds :=
  (ruleProductions [] rules).2

/-- Every production is that of a rule or of a repeated part. -/
theorem mem_productions (h : production ∈ productions rules) :
    (∃ rule ∈ rules, production.OfRule (repetitionsOf rules) rule) ∨
      ∃ number, production.OfRepetition (repetitionsOf rules) number := by
  rcases mem_append.mp h with h | h
  · exact .inl (mem_ruleProductions prefix_rfl h)
  · obtain ⟨⟨rounds, number⟩, hrounds, h⟩ := mem_flatMap.mp h
    obtain ⟨round, hround, h⟩ := mem_flatMap.mp h
    refine .inr ⟨number, rounds, mk_mem_zipIdx_iff_getElem?.mp hrounds, round, hround, ?_⟩
    simpa using h

/-- The left side of a production is a rule or a repeated part. -/
theorem left_ne_terminal (h : production ∈ productions rules) (name : String) (kept : Bool) :
    production.left ≠ .terminal name kept := by
  rcases mem_productions h with ⟨rule, -, -, -, _, -, rfl⟩ | ⟨number, _, -, _, -, rfl | rfl⟩
  · exact Symbol.noConfusion
  · exact Symbol.noConfusion
  · exact Symbol.noConfusion

end SattLine.Grammar
