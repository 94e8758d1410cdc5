import SattLine.Proofs.Grammar.Names
import SattLine.Proofs.Text.Case
import SattLine.Proofs.Usage.Walk

/-!
The positions of variables in code. Whether code reads or writes a variable is said by the forms
of statements and expressions alone: the target of an assignment is written, a bare argument of a
library routine goes the way of its parameter, and every other reference is read. Main statement:
the walk over code finds every position of a variable that has no dot in its name.
-/

namespace SattLine

namespace Routine

set_option maxRecDepth 10000 in
theorem nodup_names : (library.map name).Nodup := by
  apply Grammar.Spelled.nodup
  case h =>
    repeat' apply Grammar.Spelled.cons
    exact Grammar.Spelled.nil
  case hcodes => decide +kernel

theorem find?_eq_some_iff {name : String} {routine : Routine} :
    find? name = some routine ↔ routine ∈ library ∧ routine.name = Text.lower name :=
  find?_key_eq_some_iff nodup_names

theorem find?_eq_none_iff {name : String} :
    find? name = none ↔ ∀ routine ∈ library, routine.name ≠ Text.lower name := by
  simp [find?]

theorem directionAt_eq (routine : Routine) (place : Nat) : routine.directionAt place =
    (routine.parameters.map Parameter.direction).getD place .input := by
  simp only [directionAt, List.getD_eq_getElem?_getD, List.getElem?_map]
  cases routine.parameters[place]? <;> rfl

end Routine

namespace Usage

open List

/-- A name is a text in quotes, or it has no dot and does not begin with a quote. -/
def IsName (name : String) : Prop :=
  (∃ inner, '\'' ∉ inner ∧ name.toList = '\'' :: (inner ++ ['\''])) ∨
    (name ≠ "" ∧ name.toList.head? ≠ some '\'' ∧ '.' ∉ name.toList)

/-- A reference to the variable whose name in small letters is `x`, or to a part of it: the first of
the names between its dots is that of the variable. -/
def Names (v : Value) (x : String) : Prop :=
  ∃ first parts, IsName first ∧ (parts = "" ∨ parts.toList.head? = some '.') ∧
    v.get? "var_name" = some (.text (first ++ parts)) ∧ Text.lower first = x

/-- A reference that is `x` in small letters up to its first dot, which may stand in a name. -/
def HasBase (v : Value) (x : String) : Prop :=
  ∃ name, v.get? "var_name" = some (.text name) ∧ baseOf name = some x

/-- Whether an argument that goes this way is accessed so. -/
def goesThrough (direction : Routine.Direction) : Access → Bool
  | .read => direction.reads
  | .write => direction.writes

/-- `Occurs access v x`: the statement or expression `v` has the variable `x` in a position of
that access. -/
inductive Occurs : Access → Value → String → Prop
  | reference {v x} (h : Names v x) : Occurs .read v x
  | statement {access ofRule children v x} (hv : v ∈ children) (h : Occurs access v x) :
      Occurs access (.tree "Statement" ofRule children) x
  | target {place value x} (h : Names place x) :
      Occurs .write (.tuple [.text "assign", place, value]) x
  | assigned {access place value x} (h : Occurs access value x) :
      Occurs access (.tuple [.text "assign", place, value]) x
  | condition {access branches otherwise condition body x}
      (hb : .tuple [condition, body] ∈ branches) (h : Occurs access condition x) :
      Occurs access (.tuple [.text "IF", .list branches, otherwise]) x
  | body {access branches otherwise condition body v x}
      (hb : .tuple [condition, .list body] ∈ branches) (hv : v ∈ body) (h : Occurs access v x) :
      Occurs access (.tuple [.text "IF", .list branches, otherwise]) x
  | otherwise {access branches otherwise v x} (hv : v ∈ otherwise) (h : Occurs access v x) :
      Occurs access (.tuple [.text "IF", .list branches, .list otherwise]) x
  | question {access branches otherwise condition choice x}
      (hb : .tuple [condition, choice] ∈ branches) (h : Occurs access condition x) :
      Occurs access (.tuple [.text "Ternary", .list branches, otherwise]) x
  | choice {access branches otherwise condition choice x}
      (hb : .tuple [condition, choice] ∈ branches) (h : Occurs access choice x) :
      Occurs access (.tuple [.text "Ternary", .list branches, otherwise]) x
  | lastChoice {access branches otherwise x} (h : Occurs access otherwise x) :
      Occurs access (.tuple [.text "Ternary", .list branches, otherwise]) x
  /-- A bare argument of a library routine, accessed the way the routine says. -/
  | bareArgument {access name arguments routine place v x} (hr : routine ∈ Routine.library)
      (hn : routine.name = Text.lower name) (hv : arguments[place]? = some v) (h : Names v x)
      (hd : goesThrough (routine.directionAt place) access = true) :
      Occurs access (.tuple [.text "FunctionCall", .text name, .list arguments]) x
  /-- An argument of an unknown routine, or one that is no bare reference. -/
  | argument {access name arguments v x}
      (hr : (∀ routine ∈ Routine.library, routine.name ≠ Text.lower name) ∨ ∀ y, ¬ Names v y)
      (hv : v ∈ arguments) (h : Occurs access v x) :
      Occurs access (.tuple [.text "FunctionCall", .text name, .list arguments]) x
  | operand {access op operands v x} (hop : op = "AND" ∨ op = "OR") (hv : v ∈ operands)
      (h : Occurs access v x) : Occurs access (.tuple [.text op, .list operands]) x
  | negated {access v x} (h : Occurs access v x) : Occurs access (.tuple [.text "NOT", v]) x
  | leftSide {access op left pairs x} (hop : op = "compare" ∨ op = "add" ∨ op = "mul")
      (h : Occurs access left x) : Occurs access (.tuple [.text op, left, .list pairs]) x
  | rightSide {access op left pairs symbol right x}
      (hop : op = "compare" ∨ op = "add" ∨ op = "mul") (hp : .tuple [symbol, right] ∈ pairs)
      (h : Occurs access right x) : Occurs access (.tuple [.text op, left, .list pairs]) x
  | signed {access op v x} (hop : op = "PLUS" ∨ op = "MINUS") (h : Occurs access v x) :
      Occurs access (.tuple [.text op, v]) x

/-- `OccursInNode access node x`: the node of a sequence has the variable in such a position. -/
inductive OccursInNode : Access → Value → String → Prop
  | step {access kind name enter active exit v x} (hv : v ∈ enter ++ active ++ exit)
      (h : Occurs access v x) :
      OccursInNode access (.element .step [kind, name,
        .element .codeBlocks [.list enter, .list active, .list exit]]) x
  | transition {access name condition x} (h : Occurs access condition x) :
      OccursInNode access (.element .transition [name, condition]) x
  | branch {access kind branches nodes node x}
      (hk : kind = .alternative ∨ kind = .parallel) (hb : .list nodes ∈ branches)
      (hn : node ∈ nodes) (h : OccursInNode access node x) :
      OccursInNode access (.element kind [.list branches]) x
  | inner {access kind name nodes node x}
      (hk : kind = .subsequence ∨ kind = .transitionSub) (hn : node ∈ nodes)
      (h : OccursInNode access node x) :
      OccursInNode access (.element kind [name, .list nodes]) x

/-- `OccursInCode access code x`: a sequence or an equation block of the code of a module has the
variable in such a position. -/
inductive OccursInCode : Access → Value → String → Prop
  | sequence {access sequences equations block nodes node x} (hb : block ∈ sequences)
      (hc : block.field? "code" = some (.list nodes)) (hn : node ∈ nodes)
      (h : OccursInNode access node x) :
      OccursInCode access (.element .moduleCode [.list sequences, .list equations]) x
  | equation {access sequences equations block statements v x} (hb : block ∈ equations)
      (hc : block.field? "code" = some (.list statements)) (hv : v ∈ statements)
      (h : Occurs access v x) :
      OccursInCode access (.element .moduleCode [.list sequences, .list equations]) x

variable {v condition body choice : Value} {x : String} {access : Access} {reach : Reach}
  {items sequences equations : List Value} {routine : Option Routine} {p : Picture}
  {scope : List Variable}

theorem Names.isReference (h : Names v x) : isReference v = true := by
  obtain ⟨_, _, -, -, hname, -⟩ := h
  simp [Usage.isReference, Value.hasKey, hname]

theorem IsName.ne_empty {name : String} (h : IsName name) : name ≠ "" := by
  rintro rfl
  rcases h with ⟨_, -, hchars⟩ | ⟨hne, -⟩
  · cases hchars
  · exact hne rfl

/-- Up to its first dot a reference is its first name, if that has no dot. -/
theorem Names.hasBase (h : Names v x) (hx : '.' ∉ x.toList) : HasBase v x := by
  obtain ⟨first, parts, hfirst, hparts, hname, rfl⟩ := h
  have hdot : ∀ c ∈ first.toList, (c != '.') = true := by
    rintro c hc
    rw [Text.dot_mem_lower] at hx
    simpa using ne_of_mem_of_not_mem hc hx
  have hrest : parts.toList.takeWhile (· != '.') = [] := by
    rcases hparts with rfl | hhead
    · rfl
    · cases hchars : parts.toList with
      | nil => rfl
      | cons c rest =>
        rw [hchars, head?_cons, Option.some.injEq] at hhead
        simp [hhead]
  have hbefore : Text.before '.' (first ++ parts) = first := by
    rw [Text.before, String.toList_append, takeWhile_append_of_pos hdot, hrest, append_nil,
      String.ofList_toList]
  refine ⟨_, hname, ?_⟩
  rw [baseOf, hbefore]
  simp [hfirst.ne_empty]

theorem HasBase.baseName (h : HasBase v x) : baseName v = .ok (some x) := by
  obtain ⟨name, hname, hbase⟩ := h
  have hfull : fullName? v = some (.text name) := by
    cases v <;> simp_all [fullName?, Value.get?]
  have hholds : (Value.text name).holds = true := by
    have hne : name ≠ "" := by
      rintro rfl
      have hnone : baseOf "" = none := by decide +kernel
      simp [hnone] at hbase
    simpa [Value.holds] using hne
  simp [Usage.baseName, hfull, hholds, Value.text?, hbase]

/-- A list of findings has the variable `x` with that access, looked up in scope first. -/
def Found (found : List Finding) (access : Access) (x : String) : Prop :=
  ∃ reach, reach ≠ .program ∧ .ok ⟨x, access, reach⟩ ∈ found

theorem Found.mono {found more : List Finding} (h : Found found access x) (hsub : found ⊆ more) :
    Found more access x := by
  obtain ⟨reach, hreach, hmem⟩ := h
  exact ⟨reach, hreach, hsub hmem⟩

theorem accesses_found {kinds : List Access} (hv : Names v x) (hx : '.' ∉ x.toList)
    (hreach : reach ≠ .program) (haccess : access ∈ kinds) :
    Found (accesses kinds reach v) access x := by
  refine ⟨reach, hreach, ?_⟩
  simp only [accesses, (hv.hasBase hx).baseName, mem_map]
  exact ⟨access, haccess, rfl⟩

theorem expression_subset_expressions (hv : v ∈ items) : expression v ⊆ expressions items := by
  induction items with
  | nil => simp at hv
  | cons first rest ih =>
    rw [expressions]
    rcases mem_cons.mp hv with rfl | htail
    · exact subset_append_left _ _
    · exact List.Subset.trans (ih htail) (subset_append_right _ _)

theorem branchesOf_cons (v : Value) (rest : List Value) :
    branchesOf (v :: rest) = branchesOf [v] ++ branchesOf rest := by
  generalize hitems : v :: rest = items
  fun_cases branchesOf items <;> cases hitems <;> simp_all [branchesOf]

theorem choicesOf_cons (v : Value) (rest : List Value) :
    choicesOf (v :: rest) = choicesOf [v] ++ choicesOf rest := by
  generalize hitems : v :: rest = items
  fun_cases choicesOf items <;> cases hitems <;> simp_all [choicesOf]

theorem rightSidesOf_cons (v : Value) (rest : List Value) :
    rightSidesOf (v :: rest) = rightSidesOf [v] ++ rightSidesOf rest := by
  generalize hitems : v :: rest = items
  fun_cases rightSidesOf items <;> cases hitems <;> simp_all [rightSidesOf]

theorem subset_of_cons {walk : List Value → List Finding} {here : List Finding}
    (hcons : ∀ v rest, walk (v :: rest) = walk [v] ++ walk rest)
    (hhere : ∀ rest, here ⊆ walk (v :: rest)) (hv : v ∈ items) : here ⊆ walk items := by
  induction items with
  | nil => simp at hv
  | cons head tail ih =>
    rcases mem_cons.mp hv with rfl | htail
    · exact hhere tail
    · rw [hcons]
      exact List.Subset.trans (ih htail) (subset_append_right _ _)

theorem condition_subset_branchesOf (hb : .tuple [condition, body] ∈ items) :
    expression condition ⊆ branchesOf items := by
  refine subset_of_cons branchesOf_cons (fun rest => ?_) hb
  rw [branchesOf, append_assoc]
  exact subset_append_left _ _

theorem body_subset_branchesOf (hb : .tuple [condition, body] ∈ items) :
    block body ⊆ branchesOf items := by
  refine subset_of_cons branchesOf_cons (fun rest => ?_) hb
  rw [branchesOf, append_assoc]
  exact List.Subset.trans (subset_append_left _ _) (subset_append_right _ _)

theorem condition_subset_choicesOf (hb : .tuple [condition, choice] ∈ items) :
    expression condition ⊆ choicesOf items := by
  refine subset_of_cons choicesOf_cons (fun rest => ?_) hb
  rw [choicesOf, append_assoc]
  exact subset_append_left _ _

theorem choice_subset_choicesOf (hb : .tuple [condition, choice] ∈ items) :
    expression choice ⊆ choicesOf items := by
  refine subset_of_cons choicesOf_cons (fun rest => ?_) hb
  rw [choicesOf, append_assoc]
  exact List.Subset.trans (subset_append_left _ _) (subset_append_right _ _)

theorem right_subset_rightSidesOf {symbol right : Value} (hp : .tuple [symbol, right] ∈ items) :
    expression right ⊆ rightSidesOf items := by
  refine subset_of_cons rightSidesOf_cons (fun rest => ?_) hp
  rw [rightSidesOf]
  exact subset_append_left _ _

theorem expression_subset_arguments (hnone : ∀ place, argument? routine place v = none)
    (hv : v ∈ items) (place : Nat) : expression v ⊆ arguments routine place items := by
  induction items generalizing place with
  | nil => simp at hv
  | cons head tail ih =>
    rw [arguments]
    rcases mem_cons.mp hv with rfl | htail
    · rw [hnone place]
      exact subset_append_left _ _
    · exact List.Subset.trans (ih htail (place + 1)) (subset_append_right _ _)

theorem accesses_subset_arguments (routine : Routine) (hv : isReference v = true)
    (first place : Nat) (hat : items[place]? = some v) :
    accesses (routine.directionAt (first + place)).accesses .scopeThenProgram v ⊆
      arguments (some routine) first items := by
  induction items generalizing first place with
  | nil => simp at hat
  | cons head tail ih =>
    rw [arguments]
    cases place with
    | zero =>
      obtain rfl : head = v := by simpa using hat
      simp only [argument?, hv, ↓reduceIte, Nat.add_zero]
      exact subset_append_left _ _
    | succ place =>
      have hrest := ih (first + 1) place (by simpa using hat)
      rw [Nat.add_right_comm] at hrest
      exact List.Subset.trans hrest (subset_append_right _ _)

theorem argument?_eq_none (place : Nat) (h : routine = none ∨ isReference v = false) :
    argument? routine place v = none := by
  rcases h with rfl | hv
  · rfl
  · cases routine <;> simp [argument?, hv]

theorem routineOf_text (name : String) : routineOf (.text name) = .ok (Routine.find? name) := by
  by_cases h : name = ""
  · subst h
    have hnone : Routine.find? "" = none := by decide +kernel
    simp [routineOf, Value.holds, hnone]
  · simp [routineOf, Value.holds, Value.text?, h]

/-- Only a reference has its variable as a reference; all other forms are no dictionaries. -/
theorem Occurs.names_of_isReference (h : Occurs access v x) (hv : isReference v = true) :
    Names v x := by
  cases h with
  | reference h => exact h
  | _ => simp [isReference, Value.hasKey, Value.get?] at hv

theorem Occurs.found (h : Occurs access v x) (hx : '.' ∉ x.toList) :
    Found (expression v) access x := by
  induction h with
  | @reference v x h =>
    have hv := h.isReference
    cases v with
    | dict keys values =>
      rw [expression, if_pos hv]
      exact accesses_found h hx (by simp) (by simp)
    | _ => simp [isReference, Value.hasKey, Value.get?] at hv
  | statement hv _ ih =>
    refine (ih hx).mono ?_
    simpa [expression] using expression_subset_expressions hv
  | @target place _ x h =>
    have hfound : Found (accesses [.write] .scope place) .write x :=
      accesses_found h hx (by simp) (mem_singleton_self _)
    refine hfound.mono ?_
    simp [expression, Value.text?, operation, referenceAccesses, h.isReference]
  | assigned _ ih =>
    refine (ih hx).mono ?_
    simp [expression, Value.text?, operation]
  | condition hb _ ih =>
    refine (ih hx).mono (List.Subset.trans (condition_subset_branchesOf hb) ?_)
    simp [expression, Value.text?, operation, branches]
  | body hb hv _ ih =>
    refine (ih hx).mono (List.Subset.trans (expression_subset_expressions hv) ?_)
    refine List.Subset.trans ?_ (List.Subset.trans (body_subset_branchesOf hb) ?_)
    · simp [block]
    · simp [expression, Value.text?, operation, branches]
  | otherwise hv _ ih =>
    refine (ih hx).mono (List.Subset.trans (expression_subset_expressions hv) ?_)
    simp [expression, Value.text?, operation, block]
  | question hb _ ih =>
    refine (ih hx).mono (List.Subset.trans (condition_subset_choicesOf hb) ?_)
    simp [expression, Value.text?, operation, choices]
  | choice hb _ ih =>
    refine (ih hx).mono (List.Subset.trans (choice_subset_choicesOf hb) ?_)
    simp [expression, Value.text?, operation, choices]
  | lastChoice _ ih =>
    refine (ih hx).mono ?_
    simp [expression, Value.text?, operation]
  | @bareArgument access name items routine place v x hr hn hv h hd =>
    have hr := Routine.find?_eq_some_iff.mpr ⟨hr, hn⟩
    have hfound : Found (accesses (routine.directionAt place).accesses .scopeThenProgram v)
        access x := by
      refine accesses_found h hx (by simp) ?_
      cases access <;> simp_all [Routine.Direction.accesses, goesThrough]
    refine hfound.mono ?_
    have hsub := accesses_subset_arguments routine h.isReference 0 place hv
    rw [Nat.zero_add] at hsub
    simpa [expression, Value.text?, operation, call, routineOf_text, hr] using hsub
  | @argument access name items v x hr hv h ih =>
    have hnone : ∀ place, argument? (Routine.find? name) place v = none := by
      intro place
      apply argument?_eq_none
      refine hr.imp Routine.find?_eq_none_iff.mpr fun hnames => ?_
      rw [Bool.eq_false_iff]
      exact fun hv => hnames x (h.names_of_isReference hv)
    refine (ih hx).mono ?_
    simpa [expression, Value.text?, operation, call, routineOf_text] using
      expression_subset_arguments hnone hv 0
  | operand hop hv _ ih =>
    refine (ih hx).mono (List.Subset.trans (expression_subset_expressions hv) ?_)
    rcases hop with rfl | rfl <;> simp [expression, Value.text?, operation, block]
  | negated _ ih =>
    refine (ih hx).mono ?_
    simp [expression, Value.text?, operation]
  | leftSide hop _ ih =>
    refine (ih hx).mono ?_
    rcases hop with rfl | rfl | rfl <;> simp [expression, Value.text?, operation]
  | rightSide hop hp _ ih =>
    refine (ih hx).mono (List.Subset.trans (right_subset_rightSidesOf hp) ?_)
    rcases hop with rfl | rfl | rfl <;> simp [expression, Value.text?, operation, rightSides]
  | signed hop _ ih =>
    refine (ih hx).mono ?_
    rcases hop with rfl | rfl <;> simp [expression, Value.text?, operation]

theorem node_subset_nodesOf {kind : Element} {fields : List Value}
    (hn : .element kind fields ∈ items) : node kind fields ⊆ nodesOf items := by
  induction items with
  | nil => simp at hn
  | cons head tail ih =>
    rcases mem_cons.mp hn with rfl | htail
    · rw [nodesOf]
      exact subset_append_left _ _
    · cases head with
      | element other others =>
        rw [nodesOf]
        exact List.Subset.trans (ih htail) (subset_append_right _ _)
      | _ =>
        rw [nodesOf]
        · exact ih htail
        · simp

theorem nodes_subset_nodeBranchesOf {branch : Value} {branches : List Value}
    (hb : branch ∈ branches) : nodes branch ⊆ nodeBranchesOf branches := by
  induction branches with
  | nil => simp at hb
  | cons head tail ih =>
    rw [nodeBranchesOf]
    rcases mem_cons.mp hb with rfl | htail
    · exact subset_append_left _ _
    · exact List.Subset.trans (ih htail) (subset_append_right _ _)

theorem OccursInNode.found (h : OccursInNode access v x) (hx : '.' ∉ x.toList) :
    ∃ kind fields, v = .element kind fields ∧ Found (node kind fields) access x := by
  induction h with
  | step hv h =>
    refine ⟨_, _, rfl, (h.found hx).mono ?_⟩
    simp only [node, block]
    rcases mem_append.mp hv with hv | hv
    · rcases mem_append.mp hv with hv | hv
      · refine List.Subset.trans (expression_subset_expressions hv) ?_
        rw [append_assoc]
        exact subset_append_left _ _
      · refine List.Subset.trans (expression_subset_expressions hv) ?_
        rw [append_assoc]
        exact List.Subset.trans (subset_append_left _ _) (subset_append_right _ _)
    · exact List.Subset.trans (expression_subset_expressions hv) (subset_append_right _ _)
  | transition h =>
    refine ⟨_, _, rfl, (h.found hx).mono ?_⟩
    simp [node]
  | branch hk hb hn _ ih =>
    obtain ⟨kind, fields, rfl, hfound⟩ := ih hx
    refine ⟨_, _, rfl, hfound.mono (List.Subset.trans (node_subset_nodesOf hn) ?_)⟩
    refine List.Subset.trans ?_ (List.Subset.trans (nodes_subset_nodeBranchesOf hb) ?_)
    · simp [nodes]
    · rcases hk with rfl | rfl <;> simp [node, nodeBranches]
  | inner hk hn _ ih =>
    obtain ⟨kind, fields, rfl, hfound⟩ := ih hx
    refine ⟨_, _, rfl, hfound.mono (List.Subset.trans (node_subset_nodesOf hn) ?_)⟩
    rcases hk with rfl | rfl <;> simp [node, nodes]

theorem holds_list_of_mem (hv : v ∈ items) : (Value.list items).holds = true := by
  cases items with
  | nil => simp at hv
  | cons head tail => rfl

theorem sequence_subset_code {block : Value} (hb : block ∈ sequences) :
    sequence block ⊆ code (.element .moduleCode [.list sequences, .list equations]) := by
  simp only [code, inItems, Value.elements]
  exact subset_append_of_subset_left _ fun _ hf => mem_flatMap.mpr ⟨block, hb, hf⟩

theorem equation_subset_code {block : Value} (hb : block ∈ equations) :
    equation block ⊆ code (.element .moduleCode [.list sequences, .list equations]) := by
  simp only [code, inItems, Value.elements]
  exact subset_append_of_subset_right _ fun _ hf => mem_flatMap.mpr ⟨block, hb, hf⟩

theorem OccursInCode.found (h : OccursInCode access v x) (hx : '.' ∉ x.toList) :
    Found (code v) access x := by
  cases h with
  | sequence hb hc hn h =>
    obtain ⟨kind, fields, rfl, hfound⟩ := h.found hx
    refine hfound.mono (List.Subset.trans (node_subset_nodesOf hn) ?_)
    refine List.Subset.trans ?_ (sequence_subset_code hb)
    simp [Usage.sequence, inCode, hc, holds_list_of_mem hn, nodes]
  | equation hb hc hv h =>
    refine (h.found hx).mono (List.Subset.trans (expression_subset_expressions hv) ?_)
    refine List.Subset.trans ?_ (equation_subset_code hb)
    simp [Usage.equation, inCode, hc, holds_list_of_mem hv, block]

theorem resolve_eq_some {v : Variable} (hreach : reach ≠ .program)
    (hv : Variable.find? scope x = some v) : resolve p scope ⟨x, access, reach⟩ = some v := by
  cases reach with
  | scope => exact hv
  | scopeThenProgram => simp [resolve, hv]
  | program => exact absurd rfl hreach

/-- Recording the findings of a piece of code marks every variable found in it. -/
theorem record_found {path : Path} {found : List Finding} {s s' : State} {u : Unit} {v : Variable}
    (h : (record p scope path found).Ends s u s') (hfound : Found found access x)
    (hv : Variable.find? scope x = some v) (hsize : v.id < s.marks.entries.size) :
    s'.marks.Has v access := by
  obtain ⟨reach, hreach, hmem⟩ := hfound
  exact record_has h hmem (resolve_eq_some hreach hv) hsize

end Usage

end SattLine
