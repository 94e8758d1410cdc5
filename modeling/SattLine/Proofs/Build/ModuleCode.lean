import SattLine.Proofs.Build.SequenceReferences
import SattLine.Proofs.Syntax.Check

/-!
The code of a module. Main statements: whatever tree a module's code has, as long as its lexemes
have values, it is built; its sequences and its equation blocks stand in the order of the text,
and the code of each refers to just the variables that its tree names, in the same order. All of it
has the form of code, however deep it stands.
-/

namespace SattLine.Build

open Grammar (Part Rule)
open Syntax (Tree Forms IsOf ruleNamed? labelOf leave leave_eq lexemes lexemesIn within rowWithin
  rowWithin_of_mem word variableTree)

variable {name : String} {rule : Rule} {inner trees : List Tree} {items : List Value} {tree : Tree}
  {v : Value}

/-- Every rule of code constructs a value from its parts, and it refers to what they refer to. -/
theorem code_yields (hname : name ∈ codeNames) (hrule : ruleNamed? name = some rule)
    (h : OfRule codeSpec name inner items) : Yields name rule.shape items := by
  simp only [codeNames, List.mem_cons, List.not_mem_nil, or_false] at hname
  rcases hname with rfl | rfl | rfl | rfl | rfl | rfl | rfl | rfl | rfl | rfl | rfl | rfl | rfl |
    rfl | rfl | rfl | rfl | rfl | rfl | rfl | rfl | rfl | rfl | rfl | rfl | rfl | rfl | rfl |
    rfl | rfl | rfl | rfl | rfl | rfl | rfl | rfl | rfl | rfl <;> cases hrule
  · exact expression_yields h
  · exact or_expression_yields h
  · exact and_expression_yields h
  · exact not_expression_yields h
  · exact comparison_expression_yields h
  · exact additive_expression_yields h
  · exact multiplicative_expression_yields h
  · exact unary_expression_yields h
  · exact ternary_if_yields h
  · exact function_call_yields h
  · exact argument_list_yields h
  · exact term_yields h
  · exact statement_yields h
  · exact assignment_statement_yields h
  · exact if_statement_yields h
  · exact equationblock_yields h
  · exact sequence_yields h
  · exact sequence_body_yields h
  · exact seq_element_yields h
  · exact seq_control_opt_yields h
  iterate 2
    · exact place_yields h (by repeat constructor) (by decide) (by repeat constructor)
        (fun _ => rfl) fun x y => ⟨x, y, rfl⟩
  iterate 2
    · exact step_yields h (by repeat constructor) (by decide) (by repeat constructor)
        (fun _ => rfl) fun _ => rfl
  · exact seqtransition_yields h
  · exact nested_yields h (by repeat constructor) (by decide) (.inr rfl) (by repeat constructor)
      (fun _ => rfl) (fun _ => rfl)
      fun _ => rfl
  · exact branches_yields h (by repeat constructor) (by decide) (.inl rfl) (by repeat constructor)
      (fun _ => rfl)
      (fun _ => rfl) (fun _ => rfl) fun _ => rfl
  · exact branches_yields h (by repeat constructor) (by decide) (.inr rfl) (by repeat constructor)
      (fun _ => rfl)
      (fun _ => rfl) (fun _ => rfl) fun _ => rfl
  · exact nested_yields h (by repeat constructor) (by decide) (.inl rfl) (by repeat constructor)
      (fun _ => rfl) (fun _ => rfl)
      fun _ => rfl
  · exact seqfork_yields h
  · exact seqbreak_yields h
  · exact code_blocks_yields h
  iterate 3
    · exact action_yields h (by repeat constructor) (by decide) (by repeat constructor)
        (fun _ => rfl) (by decide) fun _ => rfl
  · exact layer_info_yields h
  · exact variable_name_yields items
  · exact value_yields h

theorem keepsIn_single : KeepsIn [tree] [v] ↔ Keeps tree v := by
  simp [KeepsIn, Keeps, variableNodesIn]

theorem valuesOf_eq_single (h : valuesOf trees = .ok [v]) :
    ∃ tree, trees = [tree] ∧ valueOf tree = .ok v := by
  match trees with
  | [] => cases h
  | [tree] =>
    obtain ⟨w, _, hw, hnil, heq⟩ := valuesOf_cons_eq_ok.mp h
    cases hnil
    cases heq
    exact ⟨tree, rfl, hw⟩
  | _ :: _ :: _ =>
    obtain ⟨_, _, -, hmore, heq⟩ := valuesOf_cons_eq_ok.mp h
    obtain ⟨_, _, -, -, hcons⟩ := valuesOf_cons_eq_ok.mp hmore
    cases hcons
    cases heq

/-- Only the rule of variable names leaves nodes of that label. -/
theorem eq_variable_name (hname : name ∈ codeNames) (hrule : ruleNamed? name = some rule)
    (hlabel : labelOf rule.shape = "variable_name") : name = "variable_name" := by
  have hnamed := Syntax.of_ruleNamed
    (p := fun rule => labelOf rule.shape != "variable_name" || rule.name == "variable_name")
    (by decide +kernel) hname hrule
  simpa [hlabel, Syntax.name_of_ruleNamed? hrule] using hnamed

/-- The tree that is left of a rule of code has the value that is left of the values. -/
theorem OfRule.isCode (h : OfRule codeSpec name inner items) (hname : name ∈ codeNames)
    (hrule : ruleNamed? name = some rule) (hitems : valuesOf inner = .ok items)
    (hkeeps : KeepsIn inner items) (hleave : leave rule.shape inner = [tree]) :
    ∃ v, IsCode name tree v := by
  obtain ⟨v, hleaves, hreferences, hform⟩ := code_yields hname hrule h
  have hlabelled : ∀ {other label}, ruleNamed? name = some other → other.shape = .node label →
      ∃ children, tree = .node label children := by
    intro other label hother hshape
    cases hrule.symm.trans hother
    rw [hshape] at hleave
    cases hleave
    exact ⟨inner, rfl⟩
  generalize hshape : rule.shape = shape at hleaves hreferences
  cases hleaves with
  | only =>
    obtain ⟨one, rfl, hone⟩ := valuesOf_eq_single hitems
    rw [hshape] at hleave
    cases hleave
    exact ⟨v, hone, keepsIn_single.mp hkeeps, hform, hlabelled⟩
  | made hstays hv =>
    obtain ⟨one, hone, hcases⟩ := leave_eq hrule inner
    cases hleave.symm.trans hone
    rw [hshape] at hcases
    rcases hcases with rfl | ⟨rfl, label, hcollapsing⟩
    · have hvalue := valueOf_node_eq_ok.mpr ⟨items, hitems, hv⟩
      refine ⟨v, hvalue, ?_, hform, hlabelled⟩
      rw [Keeps, hreferences, variableNodes]
      split
      case isTrue hlabel =>
        obtain rfl := eq_variable_name hname hrule (hshape ▸ eq_of_beq hlabel)
        cases hrule
        cases hshape
        cases (constructed_variableName items).symm.trans hv
        exact .cons ⟨hvalue, h.variableName_eq⟩ .nil
      case isFalse => exact hkeeps
    · obtain ⟨w, _, -, hnil, rfl⟩ := valuesOf_cons_eq_ok.mp hitems
      cases hnil
      exact absurd rfl (hstays label w hcollapsing)

theorem codeSpec_kept : codeSpec.Kept := by
  intro name rule row inner items tree v hrule hrow hparts hitems hleave hv hname
  have hkeeps := hparts.keepsIn (rowWithin_of_mem (code_within name hname rule hrule) hrow)
  have hof : OfRule codeSpec name inner items := ⟨rule, row, hrule, hrow, hparts⟩
  obtain ⟨w, hw⟩ := hof.isCode hname hrule hitems hkeeps hleave
  cases hv.symm.trans hw.value
  exact hw

/-- All lexemes of the trees have values. -/
def Readable (trees : List Tree) : Prop :=
  ∀ lexeme ∈ lexemesIn trees, ∃ v, valueOf (.leaf lexeme) = .ok v

theorem Readable.of_append {first rest : List Tree} (h : Readable (first ++ rest)) :
    Readable first ∧ Readable rest := by
  simpa [Readable, or_imp, forall_and] using h

theorem valuesOf_append {first rest : List Tree} {values others : List Value}
    (hfirst : valuesOf first = .ok values) (hrest : valuesOf rest = .ok others) :
    valuesOf (first ++ rest) = .ok (values ++ others) := by
  induction first generalizing values with
  | nil =>
    cases hfirst
    exact hrest
  | cons tree more ih =>
    obtain ⟨v, following, hv, hmore, rfl⟩ := valuesOf_cons_eq_ok.mp hfirst
    exact valuesOf_cons_eq_ok.mpr ⟨v, following ++ others, hv, ih hmore, rfl⟩

/-- Code is built whenever its lexemes have values: no construction of code refuses. -/
theorem code_built {row : List Part} (h : Forms row trees) (hrow : rowWithin codeNames row = true)
    (hread : Readable trees) : ∃ items, valuesOf trees = .ok items := by
  induction h with
  | nil => exact ⟨[], rfl⟩
  | @token _ _ lexeme trees _ _ ih =>
    obtain ⟨hlexeme, hrest⟩ := @Readable.of_append [.leaf lexeme] trees hread
    obtain ⟨v, hv⟩ := hlexeme lexeme (by simp [lexemesIn, lexemes])
    obtain ⟨items, hitems⟩ := ih hrow hrest
    exact ⟨v :: items, valuesOf_cons_eq_ok.mpr ⟨v, items, hv, hitems, rfl⟩⟩
  | mark _ ih => exact ih hrow hread
  | @rule name rule row rest inner trees hrule hmem hinner _ ihinner ih =>
    simp only [rowWithin, within, Bool.and_eq_true, List.contains_iff_mem] at hrow
    obtain ⟨hfirst, hrest⟩ := hread.of_append
    have hwithin := rowWithin_of_mem (code_within name hrow.1 rule hrule) hmem
    obtain ⟨values, hvalues⟩ := ihinner hwithin (by simpa [Readable] using hfirst)
    obtain ⟨items, hitems⟩ := ih hrow.2 hrest
    have hparts := codeSpec_kept.builds hinner hvalues
    obtain ⟨tree, hleave, -⟩ := leave_eq hrule inner
    have hof : OfRule codeSpec name inner values := ⟨rule, row, hrule, hmem, hparts⟩
    obtain ⟨w, hw⟩ := hof.isCode hrow.1 hrule hvalues (hparts.keepsIn hwithin) hleave
    rw [hleave]
    exact ⟨w :: items, valuesOf_cons_eq_ok.mpr ⟨w, items, hw.value, hitems, rfl⟩⟩
  | oneOf hmem _ _ ihfirst ih | opt hmem _ _ ihfirst ih =>
    simp only [rowWithin, within, Bool.and_eq_true] at hrow
    obtain ⟨hfirst, hrest⟩ := hread.of_append
    obtain ⟨values, hvalues⟩ := ihfirst (rowWithin_of_mem hrow.1 hmem) hfirst
    obtain ⟨items, hitems⟩ := ih hrow.2 hrest
    exact ⟨_, valuesOf_append hvalues hitems⟩
  | skip _ ih | stop _ ih =>
    simp only [rowWithin, within, Bool.and_eq_true] at hrow
    exact ih hrow.2 hread
  | more hmem _ _ ihfirst ih | some1 hmem _ _ ihfirst ih =>
    simp only [rowWithin, within, Bool.and_eq_true] at hrow ih
    obtain ⟨hfirst, hrest⟩ := hread.of_append
    obtain ⟨values, hvalues⟩ := ihfirst (rowWithin_of_mem hrow.1 hmem) hfirst
    obtain ⟨items, hitems⟩ := ih hrow hrest
    exact ⟨_, valuesOf_append hvalues hitems⟩

/-- Whether a tree is a node of that label. -/
def hasLabel (label : String) : Tree → Bool
  | .leaf _ => false
  | .node other _ => other == label

/-- The parts of a node that have a label, in the order of the text. -/
def partsOf (label : String) : Tree → List Tree
  | .leaf _ => []
  | .node _ children => children.filter (hasLabel label)

/-- The block is the value of the tree, and its code refers to just the variables that the tree
names, in the same order and each by the name that is written there. -/
def BuildsBlock (tree : Tree) (block : Value) : Prop :=
  valueOf tree = .ok block ∧ ∃ code, block.field? "code" = some code ∧
    List.Forall₂ Spells (variableNodes tree) (references code)

/-- A block of code: its node has the label and its value the kind, and all it refers to is in its
code. -/
structure IsBlock (kind : Element) (label : String) (tree : Tree) (v : Value) : Prop where
  builds : BuildsBlock tree v
  hasLabel : ∀ other, Build.hasLabel other tree = (label == other)
  isElement : ∀ other, v.isElement other = (kind == other)

theorem IsCode.isBlock {kind : Element} {fields : List Value} {code : Value}
    (h : IsCode name tree (.element kind fields)) (hrule : ruleNamed? name = some rule)
    (hshape : rule.shape = .node name)
    (hcode : (Value.element kind fields).field? "code" = some code)
    (hreferences : references (.element kind fields) = references code) :
    IsBlock kind name tree (.element kind fields) := by
  obtain ⟨children, rfl⟩ := h.labelled hrule hshape
  have hkeeps := h.keeps
  rw [Keeps, hreferences] at hkeeps
  exact ⟨⟨h.value, code, hcode, hkeeps⟩, fun _ => rfl, fun _ => rfl⟩

theorem codeSpec.sequence (h : codeSpec "sequence" tree v) :
    IsSequence v ∧ IsBlock .sequence "sequence" tree v := by
  have hcode := h (by decide)
  have hform : IsSequence v := hcode.form
  obtain ⟨name, kind, x, y, width, height, control, timer, nodes, rfl, hnodes⟩ := hform
  exact ⟨hcode.form, hcode.isBlock rfl rfl rfl (by simp [realPair])⟩

theorem codeSpec.equation (h : codeSpec "equationblock" tree v) :
    IsEquation v ∧ IsBlock .equation "equationblock" tree v := by
  have hcode := h (by decide)
  have hform : IsEquation v := hcode.form
  obtain ⟨name, x, y, width, height, block, rfl, hblock⟩ := hform
  exact ⟨hcode.form, hcode.isBlock rfl rfl rfl (by simp [realPair])⟩

/-- Blocks of the two kinds in any order: each kind keeps its own order. -/
theorem blocks_rounds
    (h : Rounds codeSpec [[.rule "sequence"], [.rule "equationblock"]] trees items) :
    List.Forall₂ BuildsBlock (trees.filter (hasLabel "sequence"))
        (items.filter (Value.isElement .sequence)) ∧
      List.Forall₂ BuildsBlock (trees.filter (hasLabel "equationblock"))
        (items.filter (Value.isElement .equation)) := by
  induction h with
  | nil => exact ⟨.nil, .nil⟩
  | cons hrow hfirst _ ih =>
    rcases List.mem_cons.mp hrow with rfl | hrow
    · obtain ⟨tree, v, rfl, rfl, hv⟩ := hfirst.of_lone
      have hblock := (codeSpec.sequence hv).2
      simpa [hblock.hasLabel, hblock.isElement, hblock.builds] using ih
    · obtain rfl := List.mem_singleton.mp hrow
      obtain ⟨tree, v, rfl, rfl, hv⟩ := hfirst.of_lone
      have hblock := (codeSpec.equation hv).2
      simpa [hblock.hasLabel, hblock.isElement, hblock.builds] using ih

theorem forms_rounds
    (h : Rounds codeSpec [[.rule "sequence"], [.rule "equationblock"]] trees items) :
    (∀ v ∈ items, v.isElement .sequence = true → IsSequence v) ∧
      ∀ v ∈ items, v.isElement .equation = true → IsEquation v := by
  induction h with
  | nil => simp
  | cons hrow hfirst _ ih =>
    rcases List.mem_cons.mp hrow with rfl | hrow
    · obtain ⟨_, v, rfl, rfl, hv⟩ := hfirst.of_lone
      obtain ⟨hform, hblock⟩ := codeSpec.sequence hv
      simpa [hform, hblock.isElement] using ih
    · obtain rfl := List.mem_singleton.mp hrow
      obtain ⟨_, v, rfl, rfl, hv⟩ := hfirst.of_lone
      obtain ⟨hform, hblock⟩ := codeSpec.equation hv
      simpa [hform, hblock.isElement] using ih

/-- The code that is built from a syntax tree has the form of code. -/
theorem isModuleCode_of_valueOf (htree : IsOf "modulecode" tree) (hv : valueOf tree = .ok v) :
    IsModuleCode v := by
  obtain ⟨_, row, inner, hrule, hrow, hinner, hleave⟩ := htree.parts
  cases hrule
  cases hleave
  obtain rfl := List.mem_singleton.mp hrow
  obtain ⟨items, hitems, hmade⟩ := valueOf_node_eq_ok.mp hv
  cases hmade
  obtain ⟨_, symbol, _, _, rfl, rfl, hparts⟩ :=
    (codeSpec_kept.builds hinner hitems).of_keyword fun _ => rfl
  obtain ⟨_, _, _, _, rfl, rfl, hrounds, hnil⟩ := hparts.of_some1
  cases hnil
  obtain ⟨hsequences, hequations⟩ := forms_rounds hrounds
  refine ⟨_, _, rfl, ?_, ?_⟩
  · simpa [List.mem_filter, Value.isElement] using hsequences
  · simpa [List.mem_filter, Value.isElement] using hequations

/-- The code of a module has its blocks in the order of the text, each with just the references of
its own tree, in the same order. -/
theorem moduleCode_keeps_references {tree : Tree} (htree : IsOf "modulecode" tree)
    (hread : Readable [tree]) :
    ∃ sequences equations,
      valueOf tree = .ok (.element .moduleCode [.list sequences, .list equations]) ∧
        List.Forall₂ BuildsBlock (partsOf "sequence" tree) sequences ∧
          List.Forall₂ BuildsBlock (partsOf "equationblock" tree) equations := by
  obtain ⟨_, row, inner, hrule, hrow, hinner, hleave⟩ := htree.parts
  cases hrule
  cases hleave
  obtain rfl := List.mem_singleton.mp hrow
  obtain ⟨items, hitems⟩ := code_built hinner (by decide) (by simpa [Readable, lexemes, lexemesIn]
    using hread)
  have hvalue : valueOf (.node "modulecode" inner) = .ok (moduleCode items) :=
    valueOf_node_eq_ok.mpr ⟨items, hitems, rfl⟩
  obtain ⟨_, symbol, _, _, rfl, rfl, hparts⟩ :=
    (codeSpec_kept.builds hinner hitems).of_keyword fun _ => rfl
  obtain ⟨_, _, _, _, rfl, rfl, hrounds, hnil⟩ := hparts.of_some1
  cases hnil
  obtain ⟨hsequences, hequations⟩ := blocks_rounds hrounds
  refine ⟨_, _, hvalue, ?_, ?_⟩
  · simpa [partsOf, hasLabel, Value.isElement] using hsequences
  · simpa [partsOf, hasLabel, Value.isElement] using hequations

/-- A lexeme of no special place. -/
def placeTree (label keyword : String) : Tree :=
  .node label [word keyword keyword, word "REAL" "0.0", word "REAL" "1.0"]

/-- The assignment `Out = In` and the call `WriteLine(Log, In, Job, Out.Status)`. -/
def assigningBlock : Tree :=
  .node "equationblock" [word "EQUATIONBLOCK" "EQUATIONBLOCK", word "NAME" "Level",
    placeTree "codeblock_coord" "COORD_KW", placeTree "objsizedef" "OBJSIZE",
    .node "statement" [.node "assignment_statement" [variableTree "Out",
      .node "compare" [variableTree "In"]]],
    .node "statement" [.node "function_call" [word "NAME" "WriteLine", .node "argument_list"
      [.node "compare" [variableTree "Log"], .node "compare" [variableTree "In"],
        .node "compare" [variableTree "Job"], .node "compare" [.node "variable_name"
          [word "NAME" "Out", word "DOT" ".", word "NAME" "Status"]]]]]]

/-- A sequence with one transition. -/
def waitingSequence : Tree :=
  .node "sequence" [word "SEQUENCE" "SEQUENCE", word "NAME" "Fill",
    placeTree "codeblock_coord" "COORD_KW", placeTree "objsizedef" "OBJSIZE",
    .node "sequence_body" [.node "seq_element" [.node "seqtransition"
      [word "SEQTRANSITION" "SEQTRANSITION", word "WAIT_FOR" "WAIT_FOR",
        .node "compare" [variableTree "Out"]]]],
    word "ENDSEQUENCE" "ENDSEQUENCE"]

def smallCode : Tree :=
  .node "modulecode" [word "MODULECODE" "ModuleCode", assigningBlock, waitingSequence]

theorem isOf_smallCode : IsOf "modulecode" smallCode :=
  Syntax.isOf_of_behind 60 (by decide +kernel)

theorem readable_smallCode : Readable [smallCode] := by
  have hvalues : ((lexemesIn [smallCode]).all fun lexeme =>
      (valueOf (.leaf lexeme)).toOption.isSome) = true := by
    decide +kernel
  intro lexeme hlexeme
  have hsome := List.all_eq_true.mp hvalues lexeme hlexeme
  cases hv : valueOf (.leaf lexeme) with
  | error problem =>
    rw [hv] at hsome
    cases hsome
  | ok v => exact ⟨v, rfl⟩

theorem smallCode_keeps_references :
    ∃ sequences equations,
      valueOf smallCode = .ok (.element .moduleCode [.list sequences, .list equations]) ∧
        List.Forall₂ BuildsBlock [waitingSequence] sequences ∧
          List.Forall₂ BuildsBlock [assigningBlock] equations :=
  moduleCode_keeps_references isOf_smallCode readable_smallCode

end SattLine.Build
