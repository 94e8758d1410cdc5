import SattLine.Proofs.Build.Branching
import SattLine.Proofs.Build.References
import SattLine.Usage.Occurrence

/-!
The forms of code: expressions, statements, the nodes of sequences and the blocks of a module. Main
statements: what is constructed from a row of items of these forms, with all operands in the order
of the text.
-/

namespace SattLine.Build

open List
open Usage (isReference baseName)

/-- A value that is written out. -/
def IsLiteral (v : Value) : Prop :=
  (∃ b, v = .bool b) ∨ (∃ n, v = .int n) ∨ (∃ x, v = .real x) ∨ ∃ s, v = .text s

/-- A reference to a variable, with a name that can be read and no further parts. -/
def IsReference (v : Value) : Prop :=
  ∃ keys values, v = .dict keys values ∧ isReference v = true ∧ (∃ base, baseName v = .ok base) ∧
    ∀ x ∈ values, x = .null ∨ ∃ s, x = .text s

/-- The value of a call. -/
def callOf (name : String) (arguments : List Value) : Value :=
  .tuple [.text "FunctionCall", .text name, .list arguments]

/-- The value of an operation with operators between its operands. -/
def operationOf (op : String) (left : Value) (sides : List (String × Value)) : Value :=
  .tuple [.text op, left, .list (sides.map fun side => .tuple [.text side.1, side.2])]

/-- The value of a conditional expression. -/
def choiceOf (choices : List (Value × Value)) (otherwise : Value) : Value :=
  .tuple [.text "Ternary", .list (choices.map fun choice => .tuple [choice.1, choice.2]), otherwise]

/-- The value of an expression. -/
inductive IsExpression : Value → Prop
  | literal {v : Value} (h : IsLiteral v) : IsExpression v
  | reference {v : Value} (h : IsReference v) : IsExpression v
  | negated {v : Value} (h : IsExpression v) : IsExpression (.tuple [.text "NOT", v])
  | chained {op : String} {operands : List Value} (hop : op = "OR" ∨ op = "AND")
      (h : ∀ v ∈ operands, IsExpression v) : IsExpression (.tuple [.text op, .list operands])
  | operated {op : String} {left : Value} {sides : List (String × Value)}
      (hop : op = "compare" ∨ op = "add" ∨ op = "mul") (hleft : IsExpression left)
      (h : ∀ side ∈ sides, IsExpression side.2) : IsExpression (operationOf op left sides)
  | signed {op : String} {v : Value} (hop : op = "PLUS" ∨ op = "MINUS") (h : IsExpression v) :
      IsExpression (.tuple [.text op, v])
  | chosen {choices : List (Value × Value)} {otherwise : Value}
      (hconditions : ∀ choice ∈ choices, IsExpression choice.1)
      (hchoices : ∀ choice ∈ choices, IsExpression choice.2) (hotherwise : IsExpression otherwise) :
      IsExpression (choiceOf choices otherwise)
  | called {name : String} {arguments : List Value} (h : ∀ v ∈ arguments, IsExpression v) :
      IsExpression (callOf name arguments)

/-- A statement as it stands inside a conditional statement. -/
def wrapped (x : Value) : Value :=
  .tree "Statement" false [x]

/-- The value of a conditional statement. -/
def conditionalOf (branches : List (Value × List Value)) (otherwise : Option (List Value)) : Value :=
  .tuple [.text "IF",
    .list (branches.map fun branch => branchOf branch.1 (branch.2.map wrapped)),
    (otherwise.map fun block => .list (block.map wrapped)).getD .null]

/-- The value of a statement. -/
inductive IsInstruction : Value → Prop
  | assigned {target value : Value} (htarget : IsReference target) (hvalue : IsExpression value) :
      IsInstruction (.tuple [.text "assign", target, value])
  | called {name : String} {arguments : List Value} (h : ∀ v ∈ arguments, IsExpression v) :
      IsInstruction (callOf name arguments)
  | branched {branches : List (Value × List Value)} {otherwise : Option (List Value)}
      (hconditions : ∀ branch ∈ branches, IsExpression branch.1)
      (hblocks : ∀ branch ∈ branches, ∀ x ∈ branch.2, IsInstruction x)
      (hotherwise : ∀ block ∈ otherwise, ∀ x ∈ block, IsInstruction x) :
      IsInstruction (conditionalOf branches otherwise)

/-- The value of a node in a sequence. -/
inductive IsNode : Value → Prop
  | step {kind : String} {name : Value} {enter active exit : List Value}
      (hname : name.isText = true) (henter : ∀ x ∈ enter, IsInstruction x)
      (hactive : ∀ x ∈ active, IsInstruction x) (hexit : ∀ x ∈ exit, IsInstruction x) :
      IsNode (.element .step [.text kind, name,
        .element .codeBlocks [.list enter, .list active, .list exit]])
  | transition {name condition : Value} (hname : name.isText = true) (h : IsExpression condition) :
      IsNode (.element .transition [name, condition])
  | branched {kind : Element} {branches : List (List Value)}
      (hkind : kind = .alternative ∨ kind = .parallel)
      (h : ∀ branch ∈ branches, ∀ node ∈ branch, IsNode node) :
      IsNode (.element kind [.list (branches.map .list)])
  | nested {kind : Element} {name : Value} {nodes : List Value}
      (hkind : kind = .subsequence ∨ kind = .transitionSub) (hname : name.isText = true)
      (h : ∀ node ∈ nodes, IsNode node) : IsNode (.element kind [name, .list nodes])
  | fork {name : Value} (hname : name.isText = true) : IsNode (.element .fork [name])
  | stop : IsNode (.element .stop [])

/-- The value of a sequence. -/
def IsSequence (v : Value) : Prop :=
  ∃ name kind x y width height control timer nodes,
    v = .element .sequence [.text name, .text kind, realPair x y, realPair width height,
      .bool control, .bool timer, .list nodes] ∧ ∀ node ∈ nodes, IsNode node

/-- The value of an equation block. -/
def IsEquation (v : Value) : Prop :=
  ∃ name x y width height block,
    v = .element .equation [.text name, realPair x y, realPair width height, .list block] ∧
      ∀ x ∈ block, IsInstruction x

/-- The value of the code of a module. -/
def IsModuleCode (v : Value) : Prop :=
  ∃ sequences equations, v = .element .moduleCode [.list sequences, .list equations] ∧
    (∀ s ∈ sequences, IsSequence s) ∧ ∀ e ∈ equations, IsEquation e

section References

variable {v : Value} {items : List Value}

theorem mem_referencesIn {r : Value} : r ∈ referencesIn items ↔ ∃ v ∈ items, r ∈ references v := by
  rw [← flatMap_references, mem_flatMap]

/-- All that a value refers to has a name that can be read. -/
def Referring (v : Value) : Prop :=
  ∀ r ∈ references v, IsReference r

theorem referring_iff (h : references v = referencesIn items) :
    Referring v ↔ ∀ x ∈ items, Referring x := by
  simp only [Referring, h, mem_referencesIn]
  exact ⟨fun hall x hx r hr => hall r ⟨x, hx, hr⟩, fun hall r ⟨x, hx, hr⟩ => hall x hx r hr⟩

@[simp] theorem referring_tuple : Referring (.tuple items) ↔ ∀ x ∈ items, Referring x :=
  referring_iff rfl

@[simp] theorem referring_list : Referring (.list items) ↔ ∀ x ∈ items, Referring x :=
  referring_iff rfl

@[simp] theorem referring_wrapped : Referring (wrapped v) ↔ Referring v := by
  simp [Referring, wrapped]

@[simp] theorem referring_element {kind : Element} :
    Referring (.element kind items) ↔ ∀ x ∈ items, Referring x :=
  referring_iff rfl

theorem referring_of_nil (h : references v = []) : Referring v := by
  simp [Referring, h]

@[simp] theorem referring_text (s : String) : Referring (.text s) :=
  referring_of_nil rfl

@[simp] theorem referring_bool (b : Bool) : Referring (.bool b) :=
  referring_of_nil rfl

@[simp] theorem referring_realPair (x y : Number.Double) : Referring (realPair x y) :=
  referring_of_nil rfl

theorem IsReference.referring (h : IsReference v) : Referring v := by
  have hreference := h
  obtain ⟨keys, values, rfl, hkey, -⟩ := h
  have hkey : (Value.dict keys values).hasKey "var_name" = true := hkey
  simpa [Referring, references, hkey] using hreference

theorem IsExpression.referring (h : IsExpression v) : Referring v := by
  induction h with
  | literal h => rcases h with ⟨_, rfl⟩ | ⟨_, rfl⟩ | ⟨_, rfl⟩ | ⟨_, rfl⟩ <;> exact referring_of_nil rfl
  | reference h => exact h.referring
  | negated _ ih | chained _ _ ih => simpa using ih
  | operated _ _ _ ihleft ih =>
    simpa [operationOf, forall_mem_map, -mem_map, -Prod.forall] using ⟨ihleft, ih⟩
  | signed _ _ ih => simpa using ih
  | chosen _ _ _ ihconditions ihchoices ihotherwise =>
    simpa [choiceOf, forall_mem_map, -mem_map, -Prod.forall] using
      ⟨fun choice hchoice => ⟨ihconditions choice hchoice, ihchoices choice hchoice⟩, ihotherwise⟩
  | called _ ih => simpa [callOf] using ih

theorem IsInstruction.referring (h : IsInstruction v) : Referring v := by
  induction h with
  | assigned htarget hvalue => simpa using ⟨htarget.referring, hvalue.referring⟩
  | called h => simpa [callOf] using fun v hv => (h v hv).referring
  | @branched branches otherwise hconditions _ _ ihblocks ihotherwise =>
    have hbranches : ∀ branch ∈ branches, Referring (branchOf branch.1 (branch.2.map wrapped)) := by
      intro branch hbranch
      simpa [branchOf] using ⟨(hconditions branch hbranch).referring, ihblocks branch hbranch⟩
    have hlast : Referring
        ((otherwise.map fun block => .list (block.map wrapped)).getD .null) := by
      cases otherwise with
      | none => exact referring_of_nil rfl
      | some block => simpa using ihotherwise block rfl
    simpa [conditionalOf, forall_mem_map, -mem_map, -Prod.forall] using
      ⟨hbranches, hlast⟩

theorem IsNode.referring (h : IsNode v) : Referring v := by
  have hname : ∀ {name : Value}, name.isText = true → Referring name :=
    fun htext => referring_of_nil (references_of_isText htext)
  induction h with
  | step htext henter hactive hexit =>
    simpa [hname htext] using ⟨fun x hx => (henter x hx).referring,
      fun x hx => (hactive x hx).referring, fun x hx => (hexit x hx).referring⟩
  | transition htext h => simpa [hname htext] using h.referring
  | branched _ _ ih => simpa using ih
  | nested _ htext _ ih => simpa [hname htext] using ih
  | fork htext => simpa using hname htext
  | stop => simp

theorem IsSequence.referring (h : IsSequence v) : Referring v := by
  obtain ⟨_, _, _, _, _, _, _, _, nodes, rfl, hnodes⟩ := h
  simpa using fun node hnode => (hnodes node hnode).referring

theorem IsEquation.referring (h : IsEquation v) : Referring v := by
  obtain ⟨_, _, _, _, _, block, rfl, hblock⟩ := h
  simpa using fun x hx => (hblock x hx).referring

theorem IsModuleCode.referring (h : IsModuleCode v) : Referring v := by
  obtain ⟨sequences, equations, rfl, hsequences, hequations⟩ := h
  simpa using ⟨fun s hs => (hsequences s hs).referring, fun e he => (hequations e he).referring⟩

end References

section Constructions

variable {v : Value} {items : List Value}

theorem IsExpression.isToken (h : IsExpression v) : v.isToken = false := by
  cases h with
  | literal h => rcases h with ⟨_, rfl⟩ | ⟨_, rfl⟩ | ⟨_, rfl⟩ | ⟨_, rfl⟩ <;> rfl
  | reference h =>
    obtain ⟨_, _, rfl, -⟩ := h
    rfl
  | _ => rfl

theorem IsInstruction.isToken (h : IsInstruction v) : v.isToken = false := by
  cases h <;> rfl

/-- Operators with their right operands, as they stand in a row. -/
def operatorRow (sides : List ((String × String) × Value)) : List Value :=
  sides.flatMap fun side => [.token side.1.1 side.1.2, side.2]

theorem operations_operatorRow (sides : List ((String × String) × Value)) :
    operations (operatorRow sides) =
      .ok (sides.map fun side => .tuple [.text side.1.2, side.2]) := by
  induction sides with
  | nil => rfl
  | cons side rest ih =>
    have hrow : operatorRow (side :: rest) =
        .token side.1.1 side.1.2 :: side.2 :: operatorRow rest := rfl
    rw [hrow, operations, ih]
    rfl

theorem withoutTokens_operatorRow {sides : List ((String × String) × Value)}
    (h : ∀ side ∈ sides, side.2.isToken = false) :
    withoutTokens (operatorRow sides) = sides.map Prod.snd := by
  induction sides with
  | nil => rfl
  | cons side rest ih =>
    obtain ⟨hside, hrest⟩ := forall_mem_cons.mp h
    have hrow : withoutTokens (operatorRow (side :: rest)) =
        withoutTokens [.token side.1.1 side.1.2, side.2] ++ withoutTokens (operatorRow rest) :=
      filter_append ..
    have hkeyword : (Value.token side.1.1 side.1.2).isToken = true := rfl
    rw [hrow, ih hrest]
    simp [withoutTokens, hkeyword, hside]

theorem chain_operatorRow (op : String) (hfirst : v.isToken = false)
    {sides : List ((String × String) × Value)} (h : ∀ side ∈ sides, side.2.isToken = false) :
    chain op (v :: operatorRow sides) =
      if sides = [] then v else .tuple [.text op, .list (v :: sides.map Prod.snd)] := by
  have hrow : withoutTokens (v :: operatorRow sides) = v :: sides.map Prod.snd := by
    rw [← withoutTokens_operatorRow h]
    exact filter_cons_of_pos (by simp [hfirst])
  rw [chain, hrow]
  cases sides with
  | nil => rfl
  | cons side rest => rfl

theorem comparison_operatorRow (left : Value) (sides : List ((String × String) × Value)) :
    comparison (left :: operatorRow sides) = .ok (if sides = [] then left
      else operationOf "compare" left (sides.map fun side => (side.1.2, side.2))) := by
  rw [comparison, operations_operatorRow]
  cases sides with
  | nil => rfl
  | cons side rest => simp [operationOf, bind, Except.bind, pure, Except.pure]

theorem arithmetic_operatorRow (op : String) (left : Value)
    (sides : List ((String × String) × Value)) :
    arithmetic op (left :: operatorRow sides) = .ok (if sides = [] then left
      else operationOf op left (sides.map fun side => (side.1.2, side.2))) := by
  cases sides with
  | nil => rfl
  | cons side rest =>
    have hrow : arithmetic op (left :: operatorRow (side :: rest)) = (do
        return .tuple [.text op, left, .list (← operations (operatorRow (side :: rest)))]) := rfl
    rw [hrow, operations_operatorRow]
    simp [operationOf, bind, Except.bind, pure, Except.pure]

theorem references_operationOf (op : String) (left : Value)
    (sides : List ((String × String) × Value)) :
    references (operationOf op left (sides.map fun side => (side.1.2, side.2))) =
      referencesIn (left :: operatorRow sides) := by
  simp [operationOf, operatorRow]

theorem conditionalExpression_choiceOf (first : Branch Value) (others : List (Branch Value))
    (onElse : String) (last : Value) (onEnd : String) :
    conditionalExpression (choiceItems first others onElse last onEnd) =
      .ok (choiceOf ((first :: others).map fun branch => (branch.condition, branch.body)) last) := by
  rw [conditionalExpression_choiceItems, choiceOf, map_map]
  rfl

theorem references_choiceOf (first : Branch Value) (others : List (Branch Value)) (onElse : String)
    (last : Value) (onEnd : String) :
    references (choiceOf ((first :: others).map fun branch => (branch.condition, branch.body)) last) =
      referencesIn (choiceItems first others onElse last onEnd) := by
  simp [choiceOf, choiceItems, Branch.choiceRow]

/-- A branch whose statements are wrapped. -/
def Branch.wrapped (branch : Branch (List Value)) : Branch (List Value) :=
  { branch with body := branch.body.map Build.wrapped }

def wrappedLast (otherwise : Option (String × List Value)) : Option (String × List Value) :=
  otherwise.map fun last => (last.1, last.2.map wrapped)

theorem isToken_of_mem_wrapped {block : List Value} : ∀ v ∈ block.map wrapped, v.isToken = false := by
  intro v hv
  obtain ⟨x, -, rfl⟩ := mem_map.mp hv
  rfl

theorem conditionalStatement_wrapped (first : Branch (List Value))
    (others : List (Branch (List Value))) (otherwise : Option (String × List Value))
    (onEnd : String) :
    conditionalStatement (blockItems first.wrapped (others.map Branch.wrapped)
        (wrappedLast otherwise) onEnd) =
      .ok (conditionalOf ((first :: others).map fun branch => (branch.condition, branch.body))
        (otherwise.map Prod.snd)) := by
  have hbranches : ∀ branch ∈ first.wrapped :: others.map Branch.wrapped,
      ∀ v ∈ branch.body, v.isToken = false := by
    rw [← map_cons]
    intro branch hbranch
    obtain ⟨plain, -, rfl⟩ := mem_map.mp hbranch
    exact isToken_of_mem_wrapped
  have hlast : ∀ last ∈ wrappedLast otherwise, ∀ v ∈ last.2, v.isToken = false := by
    intro last hlast
    obtain ⟨plain, -, rfl⟩ := Option.map_eq_some_iff.mp hlast
    exact isToken_of_mem_wrapped
  rw [conditionalStatement_blockItems hbranches hlast]
  cases otherwise with
  | none | some last => simp [conditionalOf, branchOf, Branch.wrapped, wrappedLast]

@[simp] theorem references_wrapped (x : Value) : references (wrapped x) = references x := by
  simp [wrapped]

theorem references_conditionalOf (first : Branch (List Value))
    (others : List (Branch (List Value))) (otherwise : Option (String × List Value))
    (onEnd : String) :
    references (conditionalOf ((first :: others).map fun branch => (branch.condition, branch.body))
        (otherwise.map Prod.snd)) =
      referencesIn (blockItems first.wrapped (others.map Branch.wrapped)
        (wrappedLast otherwise) onEnd) := by
  cases otherwise with
  | none | some last =>
    simp [conditionalOf, branchOf, blockItems, Branch.blockRow, Branch.wrapped, endRow, wrappedLast,
      flatMap_map]

theorem statementsOf_wrapped (block : List Value) : statementsOf (block.map wrapped) = block := by
  simp [statementsOf, allChildren, wrapped, Value.treeChildren?, flatMap_map]

theorem isText_calledBy (items : List Value) :
    (orEmpty (firstOrNull Value.isText items)).isText = true := by
  unfold orEmpty firstOrNull
  cases hfound : items.find? Value.isText with
  | none => rfl
  | some v =>
    rw [Option.getD_some]
    split
    · exact List.find?_some hfound
    · rfl

/-- The frame of a block: a keyword, the name, items that are no places, the place and the
size. -/
theorem blockFrame_eq (kind symbol called : String) {controls : List Value}
    (hcontrols : ∀ v ∈ controls, numberPair? v = none) (x y width height : Number.Double)
    (rest : List Value) :
    blockFrame (.token kind symbol :: .text called ::
      (controls ++ realPair x y :: realPair width height :: rest)) =
        .ok (.text called, realPair x y, realPair width height) := by
  have hnone : controls.filterMap numberPair? = [] := filterMap_eq_nil_iff.mpr hcontrols
  have hplaces : placesOf (.token kind symbol :: .text called ::
      (controls ++ realPair x y :: realPair width height :: rest)) =
        .ok [realPair x y, realPair width height] := by
    have hpairs : (Value.token kind symbol :: .text called ::
        (controls ++ realPair x y :: realPair width height :: rest)).filterMap numberPair? =
          (.real x, .real y) :: (.real width, .real height) :: rest.filterMap numberPair? := by
      rw [filterMap_cons_none rfl, filterMap_cons_none rfl, filterMap_append, hnone]
      rfl
    rw [placesOf, hpairs]
    rfl
  have hname : firstOrNull (fun v => v.isText && !v.isToken) (.token kind symbol ::
      .text called :: (controls ++ realPair x y :: realPair width height :: rest)) =
        .text called := rfl
  rw [blockFrame, hplaces, hname]
  rfl

end Constructions

end SattLine.Build
