import SattLine.Proofs.Build.CodeForm
import SattLine.Proofs.Build.Construction
import SattLine.Proofs.Build.Leaf

/-!
Code keeps its form and its references. Each rule of code leaves a value, whatever values its parts
have. It has the form that belongs to the rule, and it refers to what the parts refer to, in their
order.
-/

namespace SattLine.Build

open List
open Grammar (Part Rule Shape)
open Syntax (Tree ruleNamed? within rowWithin alternativesWithin rowWithin_of_mem labelOf)

/-- The value of the node of a variable name: the name as it is written, in no state. -/
def Spells (node : Tree) (v : Value) : Prop :=
  valueOf node = .ok v ∧ v = reference (nameText node) .null

/-- The value refers to just the variables that the tree names, in the same order. -/
def Keeps (tree : Tree) (v : Value) : Prop :=
  List.Forall₂ Spells (variableNodes tree) (references v)

def KeepsIn (trees : List Tree) (items : List Value) : Prop :=
  List.Forall₂ Spells (variableNodesIn trees) (referencesIn items)

/-- The rules of code and those that it uses. -/
def codeNames : List String :=
  ["expression", "or_expression", "and_expression", "not_expression",
    "comparison_expression", "additive_expression", "multiplicative_expression",
    "unary_expression", "ternary_if", "function_call", "argument_list", "term", "statement",
    "assignment_statement", "if_statement", "equationblock", "sequence", "sequence_body",
    "seq_element", "seq_control_opt", "codeblock_coord", "objsizedef", "seqinitstep", "seqstep",
    "seqtransition", "seqtransitionsub", "seqalternative", "seqparallel", "seqsub", "seqfork",
    "seqbreak", "code_blocks", "entercode", "activecode", "exitcode", "layer_info",
    "variable_name", "value"]

/-- The statements of a block of actions. -/
def IsActionOf (key : String) (v : Value) : Prop :=
  ∃ block, v = .dict [.text key] [.list block] ∧ ∀ x ∈ block, IsInstruction x

/-- The form that the values of a rule have. -/
def HasForm (name : String) (v : Value) : Prop :=
  match name with
  | "value" => IsLiteral v
  | "variable_name" => IsReference v
  | "function_call" => ∃ name arguments, v = callOf name arguments ∧ ∀ x ∈ arguments, IsExpression x
  | "argument_list" => ∃ arguments, v = .list arguments ∧ ∀ x ∈ arguments, IsExpression x
  | "expression" | "or_expression" | "and_expression" | "not_expression" | "comparison_expression"
  | "additive_expression" | "multiplicative_expression" | "unary_expression" | "ternary_if"
  | "term" => IsExpression v
  | "assignment_statement" | "if_statement" => IsInstruction v
  | "statement" => ∃ x, v = wrapped x ∧ IsInstruction x
  | "entercode" => IsActionOf "enter" v
  | "activecode" => IsActionOf "active" v
  | "exitcode" => IsActionOf "exit" v
  | "code_blocks" => ∃ enter active exit,
      v = .element .codeBlocks [.list enter, .list active, .list exit] ∧
        (∀ x ∈ enter, IsInstruction x) ∧ (∀ x ∈ active, IsInstruction x) ∧
          ∀ x ∈ exit, IsInstruction x
  | "seqinitstep" | "seqstep" | "seqtransition" | "seqtransitionsub" | "seqalternative"
  | "seqparallel" | "seqsub" | "seqfork" | "seqbreak" | "seq_element" => IsNode v
  | "sequence_body" => ∃ nodes, v = .tree "sequence_body" false nodes ∧ ∀ node ∈ nodes, IsNode node
  | "codeblock_coord" | "objsizedef" => ∃ x y, v = realPair x y
  | "layer_info" => ∃ n, v = .int n
  | "seq_control_opt" => ∃ controls, v = .tree "seq_control_opt" false controls ∧
      ∀ x ∈ controls, x.isToken = true
  | "sequence" => IsSequence v
  | "equationblock" => IsEquation v
  | _ => True

/-- The value of a tree of code has the form and the references that it should have. Only a rule
that may give way to its part leaves something else than a node of its own. -/
structure IsCode (name : String) (tree : Tree) (v : Value) : Prop where
  value : valueOf tree = .ok v
  keeps : Keeps tree v
  form : HasForm name v
  labelled : ∀ {rule label}, ruleNamed? name = some rule → rule.shape = .node label →
    ∃ children, tree = .node label children

def codeSpec : Spec := fun name tree v => name ∈ codeNames → IsCode name tree v

variable {trees : List Tree} {items : List Value} {row : List Part}

theorem KeepsIn.of_forall₂ (h : List.Forall₂ Keeps trees items) : KeepsIn trees items := by
  induction h with
  | nil => simp [KeepsIn, variableNodesIn]
  | cons hv _ ih =>
    rw [KeepsIn, variableNodesIn, referencesIn_cons]
    exact rel_append hv ih

/-- The rules of code use each other only. -/
theorem code_within : ∀ name ∈ codeNames, ∀ rule, ruleNamed? name = some rule →
    alternativesWithin codeNames rule.alternatives = true := by
  intro name hname rule hrule
  exact Syntax.of_ruleNamed (p := fun rule => alternativesWithin codeNames rule.alternatives)
    (by decide +kernel) hname hrule

theorem Builds.keepsIn (h : Builds codeSpec row trees items)
    (hrow : rowWithin codeNames row = true) : KeepsIn trees items := by
  refine .of_forall₂ (h.each_within hrow (fun _ _ hv => ?_) fun _ hname _ _ hv => (hv hname).keeps)
  simp [Keeps, variableNodes, references_leaf hv]

theorem Builds.referencesIn_eq_nil {spec : Spec} (h : Builds spec row trees items)
    (hrow : pickRow nameHere row = []) : referencesIn items = [] := by
  refine Build.referencesIn_eq_nil (forall_of_forall₂ (h.each (fun _ _ _ hv => references_leaf hv) ?_))
  intro name hname
  rw [hrow] at hname
  cases hname

/-- What is left of the values of a rule's parts: the only one, if the rule gives way to it, and else
what is constructed from them. -/
inductive Leaves : Shape → List Value → Value → Prop
  | only {label : String} {v : Value} : Leaves (.collapsing label) [v] v
  | made {shape : Shape} {items : List Value} {v : Value}
      (hstays : ∀ label w, shape = .collapsing label → items ≠ [w])
      (h : constructed (labelOf shape) items = .ok v) : Leaves shape items v

/-- A value is left of these parts, of the form of the rule, and refers to what they refer to. The
node of a variable is itself what is referred to. -/
def Yields (name : String) (shape : Shape) (items : List Value) : Prop :=
  ∃ v, Leaves shape items v ∧
    references v = (if labelOf shape == "variable_name" then [v] else referencesIn items) ∧
      HasForm name v

section Constructions

variable {name label : String} {shape : Shape} {row rest : List Part} {inner : List Tree}
  {items : List Value} {v : Value}

theorem Leaves.of_constructed (hv : constructed (labelOf shape) items = .ok v)
    (hone : ∀ w, items = [w] → v = w) : Leaves shape items v := by
  by_cases hsingle : ∃ label w, shape = .collapsing label ∧ items = [w]
  · obtain ⟨label, w, rfl, rfl⟩ := hsingle
    obtain rfl := hone w rfl
    exact .only
  · exact .made (fun label w hshape hitems => hsingle ⟨label, w, hshape, hitems⟩) hv

theorem Yields.of_node {f : List Value → Result Value} (hlabel : label ≠ "variable_name")
    (hf : (label, f) ∈ constructions) (hv : f items = .ok v)
    (hreferences : references v = referencesIn items) (hform : HasForm name v) :
    Yields name (.node label) items := by
  have hmade : constructed label items = .ok v := (constructed_of_mem hf items).trans hv
  refine ⟨v, .made (fun _ _ hshape => nomatch hshape) hmade, ?_, hform⟩
  rw [labelOf, if_neg (by simpa using hlabel), hreferences]

/-- A rule that always gives way to its part. -/
theorem Yields.of_only (hform : HasForm name v) (hlabel : label ≠ "variable_name") :
    Yields name (.collapsing label) [v] := by
  refine ⟨v, .only, ?_, hform⟩
  rw [labelOf, if_neg (by simpa using hlabel)]
  simp

theorem Builds.of_code (h : Builds codeSpec (.rule name :: rest) inner items)
    (hname : name ∈ codeNames) :
    ∃ v others following, items = v :: following ∧ HasForm name v ∧
      Builds codeSpec rest others following := by
  obtain ⟨_, v, others, following, rfl, rfl, hv, hrest⟩ := h.of_rule
  exact ⟨v, others, following, rfl, (hv hname).form, hrest⟩

theorem Builds.of_last (h : Builds codeSpec [.rule name] inner items)
    (hname : name ∈ codeNames) : ∃ v, items = [v] ∧ HasForm name v := by
  obtain ⟨v, _, _, rfl, hv, hnil⟩ := h.of_code hname
  cases hnil
  exact ⟨v, rfl, hv⟩

theorem Builds.of_optional (h : Builds codeSpec (.opt [[.rule name]] :: rest) inner items)
    (hname : name ∈ codeNames) :
    ∃ (part : Option Value) (others : _) (following : _), items = part.toList ++ following ∧
      (∀ v ∈ part, HasForm name v) ∧ Builds codeSpec rest others following := by
  rcases h.of_opt with ⟨_, hrow, _, _, others, following, rfl, rfl, hfirst, hrest⟩ | hrest
  · obtain rfl := mem_singleton.mp hrow
    obtain ⟨v, rfl, hv⟩ := hfirst.of_last hname
    exact ⟨some v, others, following, rfl, by simpa using hv, hrest⟩
  · exact ⟨none, inner, items, rfl, by simp, hrest⟩

/-- What the parts of an expression make is one, and a part that stands alone makes itself. -/
def Expresses (label : String) (items : List Value) : Prop :=
  ∃ f v, (label, f) ∈ constructions ∧ f items = .ok v ∧ (∀ w, items = [w] → v = w) ∧
    references v = referencesIn items ∧ IsExpression v

theorem Expresses.yields (h : Expresses (labelOf shape) items)
    (hlabel : labelOf shape ≠ "variable_name")
    (hform : ∀ v, HasForm name v = IsExpression v) :
    Yields name shape items := by
  obtain ⟨f, v, hf, hv, hone, hreferences, hexpression⟩ := h
  refine ⟨v, .of_constructed ((constructed_of_mem hf items).trans hv) hone, ?_, by rwa [hform]⟩
  rw [if_neg (by simpa using hlabel), hreferences]

/-- A keyword with the value of a rule behind it. -/
def IsPair (name : String) (items : List Value) : Prop :=
  ∃ kind symbol v, items = [.token kind symbol, v] ∧ HasForm name v

theorem Builds.isPair {kind : String} (h : Builds codeSpec [.token kind, .rule name] inner items)
    (hname : name ∈ codeNames)
    (hkeeps : ∀ text, lexemeValue? kind text = none) :
    IsPair name items := by
  obtain ⟨_, symbol, _, _, rfl, rfl, h₁⟩ := h.of_keyword hkeeps
  obtain ⟨v, rfl, hv⟩ := h₁.of_last hname
  exact ⟨kind, symbol, v, rfl, hv⟩

theorem Builds.isPair_of_operator (kinds : List String) (hkinds : Listed keywordKinds kinds)
    (hname : name ∈ codeNames)
    (h : Builds codeSpec [.oneOf (kinds.map fun kind => [.token kind]), .rule name] inner items) :
    IsPair name items := by
  obtain ⟨lexeme, _, _, rfl, rfl, -, h₁⟩ := h.of_keywords kinds hkinds
  obtain ⟨v, rfl, hv⟩ := h₁.of_last hname
  exact ⟨lexeme.kind, lexeme.text, v, rfl, hv⟩

theorem operatorRow_of_rounds
    (hround : ∀ {inner items}, Builds codeSpec row inner items → IsPair name items)
    (h : Rounds codeSpec [row] inner items) :
    ∃ sides, items = operatorRow sides ∧ ∀ side ∈ sides, HasForm name side.2 := by
  induction h with
  | nil => exact ⟨[], rfl, by simp⟩
  | cons hrow hfirst _ ih =>
    cases mem_singleton.mp hrow
    obtain ⟨kind, symbol, v, rfl, hv⟩ := hround hfirst
    obtain ⟨sides, rfl, hsides⟩ := ih
    exact ⟨((kind, symbol), v) :: sides, rfl, forall_mem_cons.mpr ⟨hv, hsides⟩⟩

/-- A level of expressions: an operand, and operators with further operands. -/
theorem Builds.of_level (h : Builds codeSpec [.rule name, .many [row]] inner items)
    (hname : name ∈ codeNames)
    (hround : ∀ {inner items}, Builds codeSpec row inner items → IsPair name items) :
    ∃ left sides, items = left :: operatorRow sides ∧ HasForm name left ∧
      ∀ side ∈ sides, HasForm name side.2 := by
  obtain ⟨left, _, _, rfl, hleft, h₁⟩ := h.of_code hname
  obtain ⟨_, values, _, _, rfl, rfl, hrounds, hnil⟩ := h₁.of_many
  cases hnil
  obtain ⟨sides, rfl, hsides⟩ := operatorRow_of_rounds hround hrounds
  exact ⟨left, sides, by rw [append_nil], hleft, hsides⟩

section Levels

variable {left : Value} {sides : List ((String × String) × Value)}

variable {op : String}

/-- Operands with one operator between them. -/
theorem expresses_chain (hop : op = "OR" ∨ op = "AND")
    (hf : (label, fun items => .ok (chain op items)) ∈ constructions) (hleft : IsExpression left)
    (hsides : ∀ side ∈ sides, IsExpression side.2) :
    Expresses label (left :: operatorRow sides) := by
  have hchain := chain_operatorRow op hleft.isToken fun side hside => (hsides side hside).isToken
  refine ⟨_, _, hf, rfl, fun w hw => ?_, references_chain op _, ?_⟩
  · cases sides with
    | nil =>
      cases hw
      exact hchain
    | cons side rest => cases hw
  · rw [hchain]
    split
    · exact hleft
    · refine .chained hop (forall_mem_cons.mpr ⟨hleft, fun v hv => ?_⟩)
      obtain ⟨side, hside, rfl⟩ := mem_map.mp hv
      exact hsides side hside

/-- Operands with operators of one level between them. -/
theorem expresses_operation {f : List Value → Result Value}
    (hop : op = "compare" ∨ op = "add" ∨ op = "mul") (hf : (label, f) ∈ constructions)
    (hv : f (left :: operatorRow sides) = .ok (if sides = [] then left
      else operationOf op left (sides.map fun side => (side.1.2, side.2))))
    (hleft : IsExpression left) (hsides : ∀ side ∈ sides, IsExpression side.2) :
    Expresses label (left :: operatorRow sides) := by
  refine ⟨f, _, hf, hv, fun w hw => ?_, ?_, ?_⟩
  · cases sides with
    | nil =>
      cases hw
      rfl
    | cons side rest => cases hw
  · split
    · simp_all [operatorRow]
    · exact references_operationOf op left sides
  · split
    · exact hleft
    · refine .operated hop hleft fun side hside => ?_
      obtain ⟨operand, hmem, rfl⟩ := mem_map.mp hside
      exact hsides operand hmem

end Levels

theorem expression_yields (h : OfRule codeSpec "expression" inner items) :
    Yields "expression" (.collapsing "expression") items := by
  obtain ⟨v, rfl, hv⟩ := (h.only (by repeat constructor)).of_last (by decide)
  exact .of_only hv (by decide)

theorem or_expression_yields (h : OfRule codeSpec "or_expression" inner items) :
    Yields "or_expression" (.collapsing "or_expression") items := by
  refine Expresses.yields ?_ (by decide) fun _ => rfl
  obtain ⟨left, sides, rfl, hleft, hsides⟩ :=
    (h.only (by repeat constructor)).of_level (by decide) fun hround =>
      hround.isPair (by decide) fun _ => rfl
  exact expresses_chain (.inl rfl) (by repeat constructor) hleft hsides

theorem and_expression_yields (h : OfRule codeSpec "and_expression" inner items) :
    Yields "and_expression" (.collapsing "and_expression") items := by
  refine Expresses.yields ?_ (by decide) fun _ => rfl
  obtain ⟨left, sides, rfl, hleft, hsides⟩ :=
    (h.only (by repeat constructor)).of_level (by decide) fun hround =>
      hround.isPair (by decide) fun _ => rfl
  exact expresses_chain (.inr rfl) (by repeat constructor) hleft hsides

theorem not_expression_yields (h : OfRule codeSpec "not_expression" inner items) :
    Yields "not_expression" (.collapsing "not_expression") items := by
  refine Expresses.yields ?_ (by decide) fun _ => rfl
  obtain ⟨_, hrow, hparts⟩ := h.row (by repeat constructor)
  rcases mem_cons.mp hrow with rfl | hrow
  · obtain ⟨_, _, operand, rfl, hoperand⟩ := hparts.isPair (by decide) fun _ => rfl
    exact ⟨_, _, by repeat constructor, rfl, (fun _ hw => nomatch hw), by simp,
      .negated hoperand⟩
  · obtain rfl := mem_singleton.mp hrow
    obtain ⟨operand, rfl, hoperand⟩ := hparts.of_last (by decide)
    exact ⟨_, operand, by repeat constructor, by rfl, by simp, by simp, hoperand⟩

theorem comparison_expression_yields (h : OfRule codeSpec "comparison_expression" inner items) :
    Yields "comparison_expression" (.node "compare") items := by
  refine Expresses.yields ?_ (by decide) fun _ => rfl
  obtain ⟨left, _, others, rfl, hleft, h₁⟩ := (h.only (by repeat constructor)).of_code (by decide)
  have hothers : ∃ sides, others = operatorRow sides ∧ ∀ side ∈ sides, IsExpression side.2 := by
    rcases h₁.of_opt with ⟨_, hrow, _, _, _, _, rfl, rfl, hfirst, hnil⟩ | hnil
    · cases hnil
      obtain rfl := mem_singleton.mp hrow
      obtain ⟨kind, symbol, right, rfl, hright⟩ := Builds.isPair_of_operator
        ["LT", "GT", "EQ", "NE", "LE", "GE"] (by repeat constructor) (by decide) hfirst
      exact ⟨[((kind, symbol), right)], rfl, forall_mem_singleton.mpr hright⟩
    · cases hnil
      exact ⟨[], rfl, by simp⟩
  obtain ⟨sides, rfl, hsides⟩ := hothers
  exact expresses_operation (.inl rfl) (by repeat constructor) (comparison_operatorRow left sides)
    hleft hsides

theorem additive_expression_yields (h : OfRule codeSpec "additive_expression" inner items) :
    Yields "additive_expression" (.collapsing "additive_expression") items := by
  refine Expresses.yields ?_ (by decide) fun _ => rfl
  obtain ⟨left, sides, rfl, hleft, hsides⟩ := (h.only (by repeat constructor)).of_level (by decide)
    (Builds.isPair_of_operator ["PLUS", "MINUS"] (by repeat constructor) (by decide))
  exact expresses_operation (.inr (.inl rfl)) (by repeat constructor)
    (arithmetic_operatorRow "add" left sides) hleft hsides

theorem multiplicative_expression_yields
    (h : OfRule codeSpec "multiplicative_expression" inner items) :
    Yields "multiplicative_expression" (.collapsing "multiplicative_expression") items := by
  refine Expresses.yields ?_ (by decide) fun _ => rfl
  obtain ⟨left, sides, rfl, hleft, hsides⟩ := (h.only (by repeat constructor)).of_level (by decide)
    (Builds.isPair_of_operator ["MULTIPLY", "DIVIDE"] (by repeat constructor) (by decide))
  exact expresses_operation (.inr (.inr rfl)) (by repeat constructor)
    (arithmetic_operatorRow "mul" left sides) hleft hsides

theorem unary_expression_yields (h : OfRule codeSpec "unary_expression" inner items) :
    Yields "unary_expression" (.collapsing "unary_expression") items := by
  refine Expresses.yields ?_ (by decide) fun _ => rfl
  have hsign : ∀ {kind : String}, kind = "PLUS" ∨ kind = "MINUS" →
      Builds codeSpec [.token kind, .rule "unary_expression"] inner items →
        Expresses "unary_expression" items := by
    intro kind hkind hparts
    have hkeeps : ∀ text, lexemeValue? kind text = none := by
      rcases hkind with rfl | rfl <;> exact fun _ => rfl
    obtain ⟨_, symbol, _, _, rfl, rfl, h₁⟩ := hparts.of_keyword hkeeps
    obtain ⟨operand, rfl, hoperand⟩ := h₁.of_last (by decide)
    rcases hkind with rfl | rfl
    · exact ⟨signed, _, by repeat constructor, rfl, (fun _ hw => nomatch hw), by simp,
        .signed (.inl rfl) hoperand⟩
    · exact ⟨signed, _, by repeat constructor, rfl, (fun _ hw => nomatch hw), by simp,
        .signed (.inr rfl) hoperand⟩
  obtain ⟨_, hrow, hparts⟩ := h.row (by repeat constructor)
  rcases mem_cons.mp hrow with rfl | hrow
  · exact hsign (.inl rfl) hparts
  · rcases mem_cons.mp hrow with rfl | hrow
    · exact hsign (.inr rfl) hparts
    · obtain rfl := mem_singleton.mp hrow
      obtain ⟨operand, rfl, hoperand⟩ := hparts.of_last (by decide)
      exact ⟨signed, operand, by repeat constructor, rfl, by simp, by simp, hoperand⟩

theorem choiceRows_of_rounds
    (h : Rounds codeSpec [[.token "ELSIF", .rule "expression", .token "THEN",
      .rule "expression"]] inner items) :
    ∃ branches : List (Branch Value), items = branches.flatMap (Branch.choiceRow "ELSIF") ∧
      ∀ branch ∈ branches, IsExpression branch.condition ∧ IsExpression branch.body := by
  induction h with
  | nil => exact ⟨[], rfl, by simp⟩
  | cons hrow hfirst _ ih =>
    obtain rfl := mem_singleton.mp hrow
    obtain ⟨_, onElsif, _, _, rfl, rfl, h₁⟩ := hfirst.of_keyword fun _ => rfl
    obtain ⟨condition, _, _, rfl, hcondition, h₂⟩ := h₁.of_code (by decide)
    obtain ⟨_, onThen, _, _, rfl, rfl, h₃⟩ := h₂.of_keyword fun _ => rfl
    obtain ⟨choice, rfl, hchoice⟩ := h₃.of_last (by decide)
    obtain ⟨branches, rfl, hbranches⟩ := ih
    exact ⟨⟨onElsif, condition, onThen, choice⟩ :: branches, rfl,
      forall_mem_cons.mpr ⟨⟨hcondition, hchoice⟩, hbranches⟩⟩

theorem ternary_if_yields (h : OfRule codeSpec "ternary_if" inner items) :
    Yields "ternary_if" (.node "ternary_if") items := by
  obtain ⟨_, onIf, _, _, rfl, rfl, h₁⟩ := (h.only (by repeat constructor)).of_keyword fun _ => rfl
  obtain ⟨condition, _, _, rfl, hcondition, h₂⟩ := h₁.of_code (by decide)
  obtain ⟨_, onThen, _, _, rfl, rfl, h₃⟩ := h₂.of_keyword fun _ => rfl
  obtain ⟨choice, _, _, rfl, hchoice, h₄⟩ := h₃.of_code (by decide)
  obtain ⟨_, _, _, _, rfl, rfl, hrounds, hend⟩ := h₄.of_many
  obtain ⟨_, onElse, _, _, rfl, rfl, hend₁⟩ := hend.of_keyword fun _ => rfl
  obtain ⟨last, _, _, rfl, hlast, hend₂⟩ := hend₁.of_code (by decide)
  obtain ⟨_, onEnd, _, _, rfl, rfl, hnil⟩ := hend₂.of_keyword fun _ => rfl
  cases hnil
  obtain ⟨branches, rfl, hbranches⟩ := choiceRows_of_rounds hrounds
  refine .of_node (by decide) (by repeat constructor)
    (conditionalExpression_choiceOf ⟨onIf, condition, onThen, choice⟩ branches onElse last onEnd)
    (references_choiceOf ..) ?_
  refine IsExpression.chosen ?_ ?_ hlast
  · refine forall_mem_cons.mpr ⟨hcondition, ?_⟩
    simpa using fun branch hbranch => (hbranches branch hbranch).1
  · refine forall_mem_cons.mpr ⟨hchoice, ?_⟩
    simpa using fun branch hbranch => (hbranches branch hbranch).2

theorem argument_list_yields (h : OfRule codeSpec "argument_list" inner items) :
    Yields "argument_list" (.node "argument_list") items := by
  refine .of_node (v := .list (withoutTokens items)) (by decide) (by repeat constructor) (by rfl)
    (referencesIn_withoutTokens items) ⟨_, rfl, fun v hv => ?_⟩
  obtain ⟨first, _, _, rfl, hfirst, h₁⟩ := (h.only (by repeat constructor)).of_code (by decide)
  obtain ⟨_, values, _, _, rfl, rfl, hrounds, hnil⟩ := h₁.of_many
  cases hnil
  have hothers : ∀ v ∈ values, IsExpression v := by
    clear h h₁ hv
    induction hrounds with
    | nil => simp
    | cons hrow hround _ ih =>
      obtain rfl := mem_singleton.mp hrow
      obtain ⟨argument, rfl, hargument⟩ := hround.of_mark.of_last (by decide)
      exact forall_mem_cons.mpr ⟨hargument, ih⟩
  have hmem := mem_of_mem_filter hv
  rw [append_nil] at hmem
  exact forall_mem_cons.mpr ⟨hfirst, hothers⟩ v hmem

theorem function_call_yields (h : OfRule codeSpec "function_call" inner items) :
    Yields "function_call" (.node "function_call") items := by
  obtain ⟨_, called, _, _, rfl, rfl, h₁⟩ := (h.only (by repeat constructor)).of_name
  obtain ⟨list, _, _, rfl, hlist, hend⟩ := h₁.of_mark.of_optional (by decide)
  obtain ⟨rfl, rfl⟩ := hend.of_mark.of_nil
  cases list with
  | none =>
    exact .of_node (by decide) (by repeat constructor) (by rfl) (by simp [callOf])
      ⟨called, [], rfl, by simp⟩
  | some list =>
    obtain ⟨arguments, rfl, harguments⟩ := hlist list rfl
    exact .of_node (by decide) (by repeat constructor) (by rfl) (by simp [callOf])
      ⟨called, arguments, rfl, harguments⟩

theorem term_yields (h : OfRule codeSpec "term" inner items) :
    Yields "term" (.collapsing "term") items := by
  have hone : ∀ part, part ∈ codeNames → (∀ v, HasForm part v → IsExpression v) →
      Builds codeSpec [.rule part] inner items → Yields "term" (.collapsing "term") items := by
    intro part hpart hform hparts
    obtain ⟨v, rfl, hv⟩ := hparts.of_last hpart
    exact .of_only (hform v hv) (by decide)
  obtain ⟨row, hrow, hparts⟩ := h.row (by repeat constructor)
  have hrows : row ∈ [[.rule "function_call"], [.mark "LPAR", .rule "expression", .mark "RPAR"],
      [.rule "ternary_if"], [.rule "variable_name"], [.rule "value"]] := hrow
  simp only [mem_cons, not_mem_nil, or_false] at hrows
  rcases hrows with rfl | rfl | rfl | rfl | rfl
  · refine hone "function_call" (by decide) (fun v hv => ?_) hparts
    obtain ⟨name, arguments, rfl, harguments⟩ := hv
    exact .called harguments
  · obtain ⟨v, _, _, rfl, hv, hnil⟩ := hparts.of_mark.of_code (by decide)
    obtain ⟨rfl, rfl⟩ := hnil.of_mark.of_nil
    exact .of_only hv (by decide)
  · exact hone "ternary_if" (by decide) (fun _ hv => hv) hparts
  · exact hone "variable_name" (by decide) (fun _ hv => .reference hv) hparts
  · exact hone "value" (by decide) (fun _ hv => .literal hv) hparts

theorem isLiteral_of_leaf {lexeme : Syntax.Token}
    (hkind : lexeme.kind ∈ ["BOOL", "REAL", "STRING", "SIGNED_INT"])
    (hv : valueOf (.leaf lexeme) = .ok v) : IsLiteral v := by
  simp only [mem_cons, not_mem_nil, or_false] at hkind
  rcases hkind with hkind | hkind | hkind | hkind
  · rw [valueOf, hkind] at hv
    cases hv
    exact .inl ⟨_, rfl⟩
  · exact .inr (.inr (.inl (real_of_leaf hkind hv)))
  · rw [valueOf, hkind] at hv
    cases hv
    exact .inr (.inr (.inr ⟨_, rfl⟩))
  · exact .inr (.inl (int_of_leaf hkind hv))

theorem literal_of_isLiteral (h : IsLiteral v) : literal [v] = .ok v := by
  rcases h with ⟨_, rfl⟩ | ⟨_, rfl⟩ | ⟨_, rfl⟩ | ⟨_, rfl⟩ <;> rfl

theorem value_yields (h : OfRule codeSpec "value" inner items) :
    Yields "value" (.node "value") items := by
  obtain ⟨_, hrow, hparts⟩ := h.row (by repeat constructor)
  obtain ⟨lexeme, w, rfl, rfl, hkind, hw⟩ :=
    hparts.of_kinds ["BOOL", "REAL", "STRING", "SIGNED_INT"] hrow
  have hliteral := isLiteral_of_leaf hkind hw
  exact .of_node (by decide) (by repeat constructor) (literal_of_isLiteral hliteral) (by simp)
    hliteral

theorem isReference_variableName (items : List Value) : IsReference (variableName items) := by
  refine ⟨_, _, rfl, rfl, ?_, ?_⟩
  · unfold Usage.baseName
    have hfull : Usage.fullName? (variableName items) =
        some (.text (String.join (items.map referencePart))) := rfl
    simp only [hfull]
    split <;> exact ⟨_, rfl⟩
  · refine forall_mem_cons.mpr ⟨.inr ⟨_, rfl⟩, forall_mem_singleton.mpr ?_⟩
    split
    · exact .inr ⟨_, rfl⟩
    · exact .inl rfl

theorem constructed_variableName (items : List Value) :
    constructed "variable_name" items = .ok (variableName items) :=
  constructed_of_mem (f := fun items => .ok (variableName items)) (by repeat constructor) items

/-- A variable name becomes the one reference that its node stands for. -/
theorem variable_name_yields (items : List Value) :
    Yields "variable_name" (.node "variable_name") items := by
  refine ⟨variableName items, .made (fun _ _ hshape => nomatch hshape)
    (constructed_variableName items), ?_, isReference_variableName items⟩
  simp [variableName, reference, Value.ofEntries, references, Value.hasKey, Value.get?,
    Value.text?, labelOf]

/-- The words for the two states of a variable are told by other names than their terminals have. -/
theorem OfRule.nameParts (h : OfRule codeSpec "variable_name" inner items) :
    List.Forall₂ (fun tree v => referencePart v = partText tree ∧ referenceState? v = none) inner
      items := by
  refine (h.only (by repeat constructor)).each (fun lexeme v hkind hv => ?_)
    fun _ hname => absurd hname not_mem_nil
  have hkind : lexeme.kind ∈ ["NAME", "DOT", "NEW", "OLD"] := Listed.mem (by repeat constructor) hkind
  simp only [mem_cons, not_mem_nil, or_false] at hkind
  rcases hkind with hkind | hkind | hkind | hkind
  all_goals
    rw [valueOf, hkind] at hv
    cases hv
    simp [referencePart, referenceState?, partText, hkind]

theorem OfRule.variableName_eq (h : OfRule codeSpec "variable_name" inner items) :
    variableName items = reference (nameText (.node "variable_name" inner)) .null := by
  have hparts := h.nameParts
  have htexts : items.map referencePart = inner.map partText := by
    rw [← forall₂_eq_eq_eq, forall₂_map_left_iff, forall₂_map_right_iff]
    exact (hparts.imp fun _ _ h => h.1).flip
  have hstates : items.filterMap referenceState? = [] :=
    filterMap_eq_nil_iff.mpr (forall_of_forall₂ (hparts.imp fun _ _ h => h.2))
  rw [variableName, hstates, htexts]
  rfl

theorem assignment_statement_yields (h : OfRule codeSpec "assignment_statement" inner items) :
    Yields "assignment_statement" (.node "assignment_statement") items := by
  obtain ⟨target, _, _, rfl, htarget, h₁⟩ := (h.only (by repeat constructor)).of_code (by decide)
  obtain ⟨assigned, rfl, hassigned⟩ := h₁.of_mark.of_last (by decide)
  exact .of_node (by decide) (by repeat constructor) (by rfl) (by simp)
    (IsInstruction.assigned htarget hassigned)

/-- A statement is wrapped, so that it can be told from the other items of a block. -/
theorem statement_yields (h : OfRule codeSpec "statement" inner items) :
    Yields "statement" (.node "statement") items := by
  have hone : ∀ part, part ∈ codeNames → (∀ v, HasForm part v → IsInstruction v) →
      Builds codeSpec [.rule part, .mark "SEMICOLON"] inner items →
        Yields "statement" (.node "statement") items := by
    intro part hpart hform hparts
    obtain ⟨x, _, _, rfl, hx, h₁⟩ := hparts.of_code hpart
    obtain ⟨rfl, rfl⟩ := h₁.of_mark.of_nil
    have hkept : statement [x] = .ok (wrapped x) := by
      simp [statement, withoutTokens, (hform x hx).isToken, wrapped]
    exact .of_node (by decide) (by repeat constructor) hkept (by simp) ⟨x, rfl, hform x hx⟩
  obtain ⟨row, hrow, hparts⟩ := h.row (by repeat constructor)
  have hrows : row ∈ ["assignment_statement", "function_call", "if_statement"].map fun part =>
    [.rule part, .mark "SEMICOLON"] := hrow
  simp only [map_cons, map_nil, mem_cons, not_mem_nil, or_false] at hrows
  rcases hrows with rfl | rfl | rfl
  · exact hone "assignment_statement" (by decide) (fun _ hv => hv) hparts
  · refine hone "function_call" (by decide) (fun v hv => ?_) hparts
    obtain ⟨name, arguments, rfl, harguments⟩ := hv
    exact .called harguments
  · exact hone "if_statement" (by decide) (fun _ hv => hv) hparts

/-- Statements in a row are the wrapped values of instructions. -/
theorem instructions_of_rounds (h : Rounds codeSpec [[.rule "statement"]] inner items) :
    ∃ block : List Value, items = block.map wrapped ∧ ∀ x ∈ block, IsInstruction x := by
  induction h with
  | nil => exact ⟨[], rfl, by simp⟩
  | cons hrow hfirst _ ih =>
    obtain rfl := mem_singleton.mp hrow
    obtain ⟨_, rfl, hv⟩ := hfirst.of_last (by decide)
    obtain ⟨x, rfl, hx⟩ := hv
    obtain ⟨block, rfl, hblock⟩ := ih
    exact ⟨x :: block, rfl, forall_mem_cons.mpr ⟨hx, hblock⟩⟩

theorem blockRows_of_rounds
    (h : Rounds codeSpec [[.token "ELSIF", .rule "expression", .token "THEN",
      .many [[.rule "statement"]]]] inner items) :
    ∃ branches : List (Branch (List Value)),
      items = (branches.map Branch.wrapped).flatMap (Branch.blockRow "ELSIF") ∧
      ∀ branch ∈ branches, IsExpression branch.condition ∧ ∀ x ∈ branch.body, IsInstruction x := by
  induction h with
  | nil => exact ⟨[], rfl, by simp⟩
  | cons hrow hfirst _ ih =>
    obtain rfl := mem_singleton.mp hrow
    obtain ⟨_, onElsif, _, _, rfl, rfl, h₁⟩ := hfirst.of_keyword fun _ => rfl
    obtain ⟨condition, _, _, rfl, hcondition, h₂⟩ := h₁.of_code (by decide)
    obtain ⟨_, onThen, _, _, rfl, rfl, h₃⟩ := h₂.of_keyword fun _ => rfl
    obtain ⟨_, _, _, _, rfl, rfl, hrounds, hnil⟩ := h₃.of_many
    cases hnil
    obtain ⟨block, rfl, hblock⟩ := instructions_of_rounds hrounds
    obtain ⟨branches, rfl, hbranches⟩ := ih
    refine ⟨⟨onElsif, condition, onThen, block⟩ :: branches, ?_,
      forall_mem_cons.mpr ⟨⟨hcondition, hblock⟩, hbranches⟩⟩
    simp [Branch.blockRow, Branch.wrapped]

theorem endRow_of_builds
    (h : Builds codeSpec [.opt [[.token "ELSE", .many [[.rule "statement"]]]], .token "ENDIF"] inner
      items) :
    ∃ otherwise onEnd, items = endRow (wrappedLast otherwise) onEnd ∧
      ∀ last ∈ otherwise, ∀ x ∈ last.2, IsInstruction x := by
  rcases h.of_opt with ⟨_, hrow, _, _, _, _, rfl, rfl, helse, hend⟩ | hend
  · obtain rfl := mem_singleton.mp hrow
    obtain ⟨_, onElse, _, _, rfl, rfl, h₁⟩ := helse.of_keyword fun _ => rfl
    obtain ⟨_, _, _, _, rfl, rfl, hrounds, hnil⟩ := h₁.of_many
    cases hnil
    obtain ⟨_, onEnd, _, _, rfl, rfl, hnil⟩ := hend.of_keyword fun _ => rfl
    cases hnil
    obtain ⟨block, rfl, hblock⟩ := instructions_of_rounds hrounds
    exact ⟨some (onElse, block), onEnd, by simp [endRow, wrappedLast], by simpa using hblock⟩
  · obtain ⟨_, onEnd, _, _, rfl, rfl, hnil⟩ := hend.of_keyword fun _ => rfl
    cases hnil
    exact ⟨none, onEnd, rfl, by simp⟩

theorem if_statement_yields (h : OfRule codeSpec "if_statement" inner items) :
    Yields "if_statement" (.node "if_statement") items := by
  obtain ⟨_, onIf, _, _, rfl, rfl, h₁⟩ := (h.only (by repeat constructor)).of_keyword fun _ => rfl
  obtain ⟨condition, _, _, rfl, hcondition, h₂⟩ := h₁.of_code (by decide)
  obtain ⟨_, onThen, _, _, rfl, rfl, h₃⟩ := h₂.of_keyword fun _ => rfl
  obtain ⟨_, _, _, _, rfl, rfl, hfirst, h₄⟩ := h₃.of_many
  obtain ⟨_, _, _, _, rfl, rfl, hrounds, h₅⟩ := h₄.of_many
  obtain ⟨block, rfl, hblock⟩ := instructions_of_rounds hfirst
  obtain ⟨branches, rfl, hbranches⟩ := blockRows_of_rounds hrounds
  obtain ⟨otherwise, onEnd, rfl, hotherwise⟩ := endRow_of_builds h₅
  refine .of_node (by decide) (by repeat constructor)
    (conditionalStatement_wrapped ⟨onIf, condition, onThen, block⟩ branches otherwise onEnd)
    (references_conditionalOf ..) ?_
  refine IsInstruction.branched ?_ ?_ ?_
  · refine forall_mem_cons.mpr ⟨hcondition, ?_⟩
    simpa using fun branch hbranch => (hbranches branch hbranch).1
  · refine forall_mem_cons.mpr ⟨hblock, ?_⟩
    simpa using fun branch hbranch => (hbranches branch hbranch).2
  · intro last hlast
    obtain ⟨pair, hpair, rfl⟩ := Option.map_eq_some_iff.mp hlast
    exact hotherwise pair hpair

end Constructions

end SattLine.Build
