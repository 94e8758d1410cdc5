import SattLine.Build.Rule

/-!
Conditional expressions and conditional statements. Their branches stand in one row of items, with
keywords between them. Main statement: what is constructed from such a row has exactly the branches
that were put into it, in their order, and a last block only if there is one.
-/

namespace SattLine.Build

open List

/-- A branch, with the texts of the keyword that opens it and of its `THEN`. -/
structure Branch (Body : Type) where
  opening : String
  condition : Value
  onThen : String
  body : Body

/-- The items of a branch that chooses a value. -/
def Branch.choiceRow (kind : String) (branch : Branch Value) : List Value :=
  [.token kind branch.opening, branch.condition, .token "THEN" branch.onThen, branch.body]

/-- The items of a branch with a block of statements. -/
def Branch.blockRow (kind : String) (branch : Branch (List Value)) : List Value :=
  .token kind branch.opening :: branch.condition :: .token "THEN" branch.onThen :: branch.body

/-- The items of a conditional expression. -/
def choiceItems (first : Branch Value) (others : List (Branch Value)) (onElse : String)
    (last : Value) (onEnd : String) : List Value :=
  first.choiceRow "IF" ++ (others.flatMap (Branch.choiceRow "ELSIF") ++
    [.token "ELSE" onElse, last, .token "ENDIF" onEnd])

/-- The block behind `ELSE`, if there is one, and the end of a conditional statement. -/
def endRow (otherwise : Option (String × List Value)) (onEnd : String) : List Value :=
  (match otherwise with
    | some (onElse, block) => .token "ELSE" onElse :: block
    | none => []) ++ [.token "ENDIF" onEnd]

/-- The items of a conditional statement. -/
def blockItems (first : Branch (List Value)) (others : List (Branch (List Value)))
    (otherwise : Option (String × List Value)) (onEnd : String) : List Value :=
  first.blockRow "IF" ++ (others.flatMap (Branch.blockRow "ELSIF") ++ endRow otherwise onEnd)

theorem choices_choiceRow (branches : List (Branch Value)) (before : List Value)
    (onElse onEnd : String) (last : Value) :
    choices before .null (branches.flatMap (Branch.choiceRow "ELSIF") ++
        [Value.token "ELSE" onElse, last, .token "ENDIF" onEnd]) =
      .ok (.tuple [.text "Ternary", .list (before ++ branches.map fun branch =>
        .tuple [branch.condition, branch.body]), last]) := by
  induction branches generalizing before with
  | nil =>
    rw [flatMap_nil, nil_append, choices, choices]
    · simp [choices]
    all_goals
      intros
      simp_all
  | cons branch rest ih =>
    have hrest := ih (before ++ [.tuple [branch.condition, branch.body]])
    rw [append_assoc] at hrest
    rw [flatMap_cons, Branch.choiceRow, append_assoc]
    simp only [cons_append, nil_append, choices]
    exact hrest

theorem conditionalExpression_choiceItems (first : Branch Value) (others : List (Branch Value))
    (onElse : String) (last : Value) (onEnd : String) :
    conditionalExpression (choiceItems first others onElse last onEnd) =
      .ok (.tuple [.text "Ternary", .list ((first :: others).map fun branch =>
        .tuple [branch.condition, branch.body]), last]) := by
  rw [conditionalExpression, choiceItems, Branch.choiceRow, cons_append, cons_append, cons_append,
    cons_append, nil_append, choices]
  exact choices_choiceRow others [.tuple [first.condition, first.body]] onElse onEnd last

section Blocks

variable {block : List Value}

theorem keyword?_of_not_token {v : Value} (h : v.isToken = false) : keyword? v = none := by
  cases v with
  | token kind text => cases h
  | _ => rfl

/-- A block goes on as long as there are no keywords. -/
theorem ifParts_block {place : List Value → IfPlace}
    (hplace : (∃ condition, place = .inBlock condition) ∨ place = .inElse)
    (h : ∀ v ∈ block, v.isToken = false) (before rest : List Value) :
    ifParts (place before) (block ++ rest) = ifParts (place (before ++ block)) rest := by
  induction block generalizing before with
  | nil => rw [nil_append, append_nil]
  | cons v more ih =>
    obtain ⟨hv, hmore⟩ := forall_mem_cons.mp h
    have hstep : ifParts (place before) (v :: (more ++ rest)) =
        ifParts (place (before ++ [v])) (more ++ rest) := by
      rcases hplace with ⟨_, rfl⟩ | rfl
      all_goals
        rw [ifParts]
        simp only [keyword?_of_not_token hv]
    rw [cons_append, hstep, ih hmore, append_assoc, singleton_append]

variable {otherwise : Option (String × List Value)}

theorem ifParts_endRow (condition : Value) (before : List Value)
    (h : ∀ last ∈ otherwise, ∀ v ∈ last.2, v.isToken = false) (onEnd : String) :
    ifParts (.inBlock condition before) (endRow otherwise onEnd) =
      .ok ([branchOf condition before], otherwise.map Prod.snd) := by
  cases otherwise with
  | none => rfl
  | some last =>
    have hrow : endRow (some last) onEnd =
        .token "ELSE" last.1 :: (last.2 ++ [.token "ENDIF" onEnd]) := rfl
    rw [hrow, ifParts]
    simp only [keyword?]
    rw [ifParts_block (.inr rfl) (h last rfl)]
    rfl

/-- Each branch closes the block before it, and the end closes the last one. -/
theorem ifParts_blockRow {branches : List (Branch (List Value))}
    (hbranches : ∀ branch ∈ branches, ∀ v ∈ branch.body, v.isToken = false)
    (h : ∀ last ∈ otherwise, ∀ v ∈ last.2, v.isToken = false) (onEnd : String) (condition : Value)
    (before : List Value) :
    ifParts (.inBlock condition before)
        (branches.flatMap (Branch.blockRow "ELSIF") ++ endRow otherwise onEnd) =
      .ok (branchOf condition before ::
        branches.map fun branch => branchOf branch.condition branch.body,
          otherwise.map Prod.snd) := by
  induction branches generalizing condition before with
  | nil => exact ifParts_endRow condition before h onEnd
  | cons branch rest ih =>
    obtain ⟨hbranch, hrest⟩ := forall_mem_cons.mp hbranches
    rw [flatMap_cons, Branch.blockRow, append_assoc]
    simp only [cons_append]
    rw [ifParts]
    simp only [keyword?]
    rw [ifParts, ifParts, ifParts_block (.inl ⟨_, rfl⟩) hbranch, nil_append, ih hrest]
    rfl

theorem conditionalStatement_blockItems {first : Branch (List Value)}
    {others : List (Branch (List Value))}
    (hbranches : ∀ branch ∈ first :: others, ∀ v ∈ branch.body, v.isToken = false)
    (h : ∀ last ∈ otherwise, ∀ v ∈ last.2, v.isToken = false) (onEnd : String) :
    conditionalStatement (blockItems first others otherwise onEnd) =
      .ok (.tuple [.text "IF", .list ((first :: others).map fun branch =>
        .tuple [branch.condition, .list branch.body]),
          (otherwise.map fun last => .list last.2).getD .null]) := by
  obtain ⟨hfirst, hothers⟩ := forall_mem_cons.mp hbranches
  rw [conditionalStatement, blockItems, Branch.blockRow]
  simp only [cons_append]
  rw [ifParts]
  simp only [keyword?]
  rw [ifParts, ifParts, ifParts_block (.inl ⟨_, rfl⟩) hfirst, nil_append, ifParts_blockRow hothers h]
  cases otherwise with
  | none | some last => rfl

end Blocks

/-- The branches of a conditional statement and of a conditional expression are found as they were
put into the row; the last block is null exactly if the row has none. -/
theorem conditionals_decoded :
    (∀ (first : Branch (List Value)) (others : List (Branch (List Value)))
        (otherwise : Option (String × List Value)) (onEnd : String),
      (∀ branch ∈ first :: others, ∀ v ∈ branch.body, v.isToken = false) →
      (∀ last ∈ otherwise, ∀ v ∈ last.2, v.isToken = false) →
      rule? "if_statement" (blockItems first others otherwise onEnd) =
        some (.ok (.tuple [.text "IF",
          .list ((first :: others).map fun branch => .tuple [branch.condition, .list branch.body]),
          match otherwise with
            | some last => .list last.2
            | none => .null]))) ∧
    ∀ (first : Branch Value) (others : List (Branch Value)) (onElse : String) (last : Value)
        (onEnd : String),
      rule? "ternary_if" (choiceItems first others onElse last onEnd) =
        some (.ok (.tuple [.text "Ternary",
          .list ((first :: others).map fun branch => .tuple [branch.condition, branch.body]),
          last])) := by
  constructor
  · intro first others otherwise onEnd hbranches hotherwise
    have hrule : ∀ items, rule? "if_statement" items = some (conditionalStatement items) :=
      fun _ => rfl
    rw [hrule, conditionalStatement_blockItems hbranches hotherwise]
    cases otherwise with
    | none | some last => rfl
  · intro first others onElse last onEnd
    have hrule : ∀ items, rule? "ternary_if" items = some (conditionalExpression items) :=
      fun _ => rfl
    rw [hrule, conditionalExpression_choiceItems]

theorem empty_blocks_decoded :
    (Value.text "s").isToken = false ∧
      rule? "if_statement" [.token "IF" "IF", .int 1, .token "THEN" "THEN", .token "ELSIF" "ELSIF",
          .int 2, .token "THEN" "THEN", .text "s", .token "ELSE" "ELSE", .token "ENDIF" "ENDIF"] =
        some (.ok (.tuple [.text "IF",
          .list [.tuple [.int 1, .list []], .tuple [.int 2, .list [.text "s"]]], .list []])) := by
  refine ⟨rfl, conditionals_decoded.1 ⟨"IF", .int 1, "THEN", []⟩
    [⟨"ELSIF", .int 2, "THEN", [.text "s"]⟩] (some ("ELSE", [])) "ENDIF" ?_ ?_⟩
  · rintro branch hbranch v hv
    simp only [mem_cons, not_mem_nil, or_false] at hbranch
    rcases hbranch with rfl | rfl
    · cases hv
    · cases mem_singleton.mp hv
      rfl
  · rintro last hlast v hv
    cases hlast
    cases hv

end SattLine.Build
