import SattLine.Proofs.Build.Constructible
import SattLine.Proofs.Build.Fine

/-!
What each rule promises of its trees and values, and what has to be shown of its construction: that
it gives a value exactly if the tree can be constructed, and that the value is fine and keeps the
promise. Main statements: the constructions that only pick out parts and the rules without a
construction need no further proof.
-/

namespace SattLine.Build

open Grammar (Rule rules)
open Number (Double readInt?)
open Syntax (Tree Forms IsOf ruleNamed? labelOf lexemes lexemesIn ruleNamed?_eq_some_iff)
open Usage (Faultless Operand Condition expression)

/-- What a rule promises of its trees and values. -/
abbrev Promise := Tree → Value → Prop

section Promises

def noPromise : Promise :=
  fun _ _ => True

def valued (P : Value → Prop) : Promise :=
  fun _ v => P v

def ofKind (kind : Element) : Promise :=
  valued fun v => v.isElement kind = true

/-- The tree is kept. -/
def keptTree : Promise :=
  fun tree v => ∃ label parts items, label ∈ treeLabels ∧ tree = .node label parts ∧
    v = .tree label true items

/-- The value is a whole number just if its tree is one. -/
def Numbered : Promise :=
  fun tree v => ∀ n, v = .int n ↔
    ∃ lexeme ∈ lexemes tree, lexeme.kind = "SIGNED_INT" ∧ readInt? lexeme.text = some n

def ofLiteral : Promise :=
  fun tree v => IsLiteral v ∧ Numbered tree v

def ofReference : Promise :=
  fun tree v => IsReference v ∧ Numbered tree v

def ofConnected : Promise :=
  fun tree v => Operand v ∧ Numbered tree v

/-- What stands behind a coordinate: a connection, or else nothing that counts as a number. -/
def ofTail : Promise :=
  fun tree v => (hasLabel "coord_invar_tail" tree = true ∧ Numbered tree v) ∨
    (hasLabel "coord_invar_tail" tree = false ∧ v.isNumber = false)

def ofText : Promise :=
  fun tree v => ∃ lexeme, tree = .node "text_content" [.leaf lexeme] ∧
    v = .text (unquoted lexeme.text)

/-- Neither the tree nor the value stands for a text. -/
def untextual : Promise :=
  fun tree v => textOf? tree = none ∧ v.isText = false ∧ v.treeChildren? "text_content" = none

/-- Only conditions stand under an enabling argument. -/
def IsArgument (v : Value) : Prop :=
  v.hasKey "enable" = true → Condition (v.getOrNull "tail")

def AreArguments (v : Value) : Prop :=
  ∃ arguments, v = .tree "arguments" false arguments ∧ ∀ a ∈ arguments, IsArgument a

def IsEnabling (v : Value) : Prop :=
  ∃ b condition, v = Value.ofEntries [("enable", .bool b), ("tail", condition)] ∧
    Condition condition

def IsInvoked (v : Value) : Prop :=
  ∃ xs : List Double, xs.length = 5 ∧ v = .tuple (xs.map .real)

def IsPlace (v : Value) : Prop :=
  ∃ x y, v = realPair x y

def IsLayer (v : Value) : Prop :=
  isInt v = true

def IsDeclared (v : Value) : Prop :=
  ∃ name description, v = .tuple [.text name, description]

def AreOperands (v : Value) : Prop :=
  ∃ operands, v = .list operands ∧ ∀ x ∈ operands, Operand x

/-- Nothing in the value has the wrong shape for code. -/
def Performs (v : Value) : Prop :=
  Faultless (expression v)

def IsStatement (v : Value) : Prop :=
  ∃ x, v = .tree "Statement" false [x] ∧ Performs x

def IsAction (v : Value) : Prop :=
  ∃ key xs, v = .dict [.text key] [.list xs] ∧ ∀ x ∈ xs, Performs x

/-- What is promised of programs, base pictures and modules. -/
def modulePromises : List (String × Promise) := [
  ("start", ofKind .basePicture), ("syntax_version_line", keptTree),
  ("original_file_date_line", keptTree), ("program_date_line", keptTree),
  ("header_lines", keptTree), ("module_header", ofKind .moduleHeader),
  ("argument", valued IsArgument), ("arguments", valued AreArguments),
  ("base_picture_module", ofKind .basePicture), ("base_module_body", noPromise),
  ("module_body", noPromise), ("invocation_new_module", noPromise),
  ("invocation_module_type", noPromise), ("invocation_tail", noPromise),
  ("moduletype_par_list", noPromise), ("moduletype_par_transfer", noPromise),
  ("frame_module", noPromise), ("scan_group", noPromise), ("invoke_coord", valued IsInvoked),
  ("sl_datecode", noPromise)]

/-- What is promised of declarations. -/
def declarationPromises : List (String × Promise) := [
  ("datatype_typedefinitions", noPromise), ("record", noPromise),
  ("variable_item", valued IsDeclared), ("variable_group", noPromise), ("variable_list", noPromise),
  ("opt_var_init", noPromise), ("value", ofLiteral), ("moduletype_definitions", noPromise),
  ("moduleparameters", noPromise), ("localvariables", noPromise),
  ("moduletype_definition", noPromise), ("submodules", noPromise)]

/-- What is promised of code. -/
def codePromises : List (String × Promise) := [
  ("modulecode", noPromise), ("expression", valued Operand), ("or_expression", valued Operand),
  ("and_expression", valued Operand), ("not_expression", valued Operand),
  ("comparison_expression", valued Operand), ("additive_expression", valued Operand),
  ("multiplicative_expression", valued Operand), ("unary_expression", valued Operand),
  ("ternary_if", valued Operand), ("function_call", valued Operand),
  ("argument_list", valued AreOperands), ("term", valued Operand),
  ("statement", valued IsStatement), ("assignment_statement", valued Performs),
  ("if_statement", valued Performs), ("equationblock", noPromise)]

/-- What is promised of sequences. -/
def sequencePromises : List (String × Promise) := [
  ("sequence", noPromise), ("sequence_body", noPromise), ("seq_element", noPromise),
  ("seq_control_opt", noPromise), ("codeblock_coord", valued IsPlace),
  ("objsizedef", valued IsPlace), ("seqinitstep", noPromise), ("seqstep", noPromise),
  ("seqtransition", noPromise),
  ("seqtransitionsub", noPromise), ("seqalternative", noPromise), ("seqparallel", noPromise),
  ("seqsub", noPromise), ("seqfork", noPromise), ("seqbreak", noPromise),
  ("code_blocks", noPromise), ("entercode", valued IsAction), ("activecode", valued IsAction),
  ("exitcode", valued IsAction)]

/-- What is promised of pictures. -/
def picturePromises : List (String × Promise) := [
  ("moduledef", noPromise), ("clippingbounds", noPromise), ("origo_size_pair", untextual),
  ("coordinates", valued IsPlace), ("coord_tail", ofTail), ("coord_invar_tail", ofTail),
  ("coord_clippingbounds", ofTail), ("clip_values", keptTree), ("clip_value", keptTree),
  ("moduledef_opts", keptTree), ("moduledef_option", keptTree), ("two_layers", noPromise),
  ("zoomlimits", valued IsArgument), ("grid", noPromise), ("graph_objects", noPromise),
  ("graph_object", noPromise), ("common_properties", keptTree), ("layer_info", valued IsLayer),
  ("enable", valued IsEnabling), ("enable_expression", valued Operand), ("invar", valued Operand),
  ("variable_name", ofReference), ("format_string", keptTree), ("connected_variable", ofConnected),
  ("value_fraction", keptTree), ("connection_node", keptTree), ("alignment", keptTree),
  ("color_properties", keptTree), ("outline_colour", keptTree), ("fill_colour", keptTree),
  ("assign_colour", keptTree), ("colour_assignments", keptTree), ("colour_style", keptTree),
  ("width", keptTree)]

/-- What is promised of graphical objects. -/
def graphPromises : List (String × Promise) := [
  ("text_object", noPromise), ("text_content", ofText), ("rectangle_object", noPromise),
  ("line_object", noPromise), ("oval_object", noPromise), ("polygon_object", noPromise),
  ("polygon_type", keptTree), ("segment_object", noPromise), ("composite_object", noPromise)]

/-- What is promised of interaction objects. -/
def interactionPromises : List (String × Promise) := [
  ("interact_objects", noPromise), ("interact_item", keptTree), ("combutproc_item", noPromise),
  ("procedure_call", noPromise), ("procedure_args", keptTree), ("proc_atom", keptTree),
  ("combutproc_tail", keptTree), ("interact_simple_item", noPromise),
  ("interact_type_simple", keptTree), ("interact_body_seq", keptTree), ("interact_body", keptTree),
  ("interact_value_line", noPromise), ("value_or_invar", keptTree), ("invar_tail", noPromise),
  ("interact_flag", noPromise), ("interact_assign_variable", valued IsArgument)]

def promises : List (String × Promise) :=
  modulePromises ++ declarationPromises ++ codePromises ++ sequencePromises ++ picturePromises ++
    graphPromises ++ interactionPromises

end Promises

/-- A tree of a rule with its value, which is fine and as promised. -/
structure Built (name : String) (tree : Tree) (v : Value) : Prop where
  isOf : IsOf name tree
  value : valueOf tree = .ok v
  fine : Fine v
  promised : ∀ promise, (name, promise) ∈ promises → promise tree v

variable {v : Value}

theorem Lexical.fine (h : Lexical v) : Fine v := by
  cases h with
  | zoomable => exact .dict ⟨none, rfl⟩ (by simpa using Fine.plain rfl)
  | _ => exact .plain rfl

theorem Built.keeps {name : String} {tree : Tree} (h : Built name tree v) (promise : Promise)
    (hmem : (name, promise) ∈ promises) : promise tree v :=
  h.promised promise hmem

/-- The parts of a node and their values. -/
structure Parts (row : List Grammar.Part) (inner : List Tree) (items : List Value) : Prop where
  builds : Builds Built row inner items
  forms : Forms row inner
  values : valuesOf inner = .ok items
  lexed : ∀ lexeme ∈ lexemesIn inner, lexeme.Lexed

section Parts

variable {alternatives : List (List Grammar.Part)} {row : List Grammar.Part} {inner : List Tree}
  {items : List Value}

/-- What the lexemes and the rules of a rule give holds of all its parts. -/
theorem Parts.each {R : Promise} (h : Parts row inner items) (hrow : row ∈ alternatives)
    (hlexemes : ∀ lexeme v, lexeme.kind ∈ pickIn kindHere alternatives →
      valueOf (.leaf lexeme) = .ok v → R (.leaf lexeme) v)
    (hrules : ∀ name ∈ pickIn nameHere alternatives, ∀ tree v, Built name tree v → R tree v) :
    List.Forall₂ R inner items :=
  h.builds.each (fun lexeme v hmem => hlexemes lexeme v (mem_pickIn hrow hmem))
    fun name hmem => hrules name (mem_pickIn hrow hmem)

variable {P : Value → Prop}

theorem Parts.forall_items (h : Parts row inner items) (hrow : row ∈ alternatives)
    (hlexemes : ∀ lexeme v, lexeme.kind ∈ pickIn kindHere alternatives →
      valueOf (.leaf lexeme) = .ok v → P v)
    (hrules : ∀ name ∈ pickIn nameHere alternatives, ∀ tree v, Built name tree v → P v) :
    ∀ v ∈ items, P v :=
  forall_of_forall₂ (h.each hrow hlexemes hrules)

theorem Parts.forall_listed {names : List String} (h : Parts row inner items)
    (hrow : row ∈ alternatives) (hnames : Listed names (pickIn nameHere alternatives))
    (hlexical : ∀ v, Lexical v → P v) (hrules : ∀ name ∈ names, ∀ tree v, Built name tree v → P v) :
    ∀ v ∈ items, P v :=
  h.forall_items hrow (fun _ v _ hv => hlexical v (lexical_of_leaf hv))
    fun name hname => hrules name (hnames.mem hname)

theorem Parts.fine (h : Parts row inner items) : AllFine items :=
  forall_of_forall₂ (h.builds.each (fun _ _ _ hv => (lexical_of_leaf hv).fine)
    fun _ _ _ _ hv => hv.fine)

end Parts

/-- A node is left, and not its only part. -/
def StaysNode (shape : Grammar.Shape) (inner : List Tree) : Prop :=
  ∀ label tree, shape = .collapsing label → inner ≠ [tree]

/-- The construction of a rule gives a value exactly if the tree can be constructed, and then the
value is fine and as promised. -/
structure Promise.Kept (promise : Promise) (rule : Rule) : Prop where
  returns : ∀ {row inner items}, row ∈ rule.alternatives → Parts row inner items →
    StaysNode rule.shape inner →
      ((∃ v, constructed (labelOf rule.shape) items = .ok v) ↔ Assembles (labelOf rule.shape) inner)
  made : ∀ {row inner items v}, row ∈ rule.alternatives → Parts row inner items →
    StaysNode rule.shape inner → constructed (labelOf rule.shape) items = .ok v →
      Fine v ∧ promise (.node (labelOf rule.shape) inner) v
  only : ∀ {row tree v label}, rule.shape = .collapsing label → row ∈ rule.alternatives →
    Parts row [tree] [v] → promise tree v

/-- A rule and what it has to keep. -/
def KeptBy (rule : Rule) (entry : String × Promise) : Prop :=
  rule.name = entry.1 ∧ (rule ∈ rules → entry.2.Kept rule)

/-- The constructions that do not refuse. -/
def ordinaryConstructions : List Construction :=
  moduleConstructions ++ (pictureConstructions ++ codeConstructions)

section Labels

variable {label : String} {inner : List Tree}

theorem mem_constructions {entry : Construction} (h : entry ∈ ordinaryConstructions) :
    entry ∈ constructions := by
  simp only [ordinaryConstructions, constructions, List.mem_append] at h ⊢
  rcases h with h | h | h
  · exact .inl h
  · exact .inr (.inl (.inr h))
  · exact .inr (.inr h)

theorem not_placeLabel_of_mem {f : List Value → Result Value}
    (h : (label, f) ∈ ordinaryConstructions) : label ∉ placeConstructions.map Prod.fst := by
  have hnodup := nodup_labels.of_append_left
  simp only [constructions, List.map_append, List.nodup_append, List.mem_append] at hnodup
  intro hplace
  rcases List.mem_append.mp h with h | h
  · exact hnodup.2.2 _ (List.mem_map_of_mem h) _ (.inl (.inl hplace)) rfl
  · rcases List.mem_append.mp h with h | h
    · exact hnodup.2.1.1.2.2 _ hplace _ (List.mem_map_of_mem h) rfl
    · exact hnodup.2.1.2.2 _ (.inl hplace) _ (List.mem_map_of_mem h) rfl

theorem not_placeLabel_of_treeLabel (h : label ∈ treeLabels) :
    label ∉ placeConstructions.map Prod.fst := by
  intro hplace
  refine (List.nodup_append.mp nodup_labels).2.2 _ ?_ _ h rfl
  simp only [constructions, List.map_append, List.mem_append]
  exact .inr (.inl (.inl hplace))

/-- Nothing stands in the way of the other nodes. -/
theorem assembles_of_not_placeLabel (h : label ∉ placeConstructions.map Prod.fst) :
    Assembles label inner where
  range hlabel := by
    refine absurd ?_ h
    rcases List.mem_cons.mp hlabel with rfl | hlabel
    · exact .head _
    · cases List.mem_singleton.mp hlabel
      exact .tail _ (.head _)
  texts hlabel := absurd (hlabel ▸ .tail _ (.tail _ (.head _))) h

end Labels

section Kept

variable {promise : Promise} {name label : String} {alternatives : List (List Grammar.Part)}
  {rule : Rule}

variable {f : List Value → Result Value} {row : List Grammar.Part} {inner : List Tree}
  {items : List Value}

/-- A construction that gives a fine value, as promised, whatever its parts are. -/
theorem Promise.Kept.of_made (hf : (label, f) ∈ ordinaryConstructions)
    (h : ∀ {row inner items}, row ∈ alternatives → Parts row inner items →
      ∃ v, f items = .ok v ∧ Fine v ∧ promise (.node label inner) v) :
    promise.Kept ⟨name, .node label, alternatives⟩ where
  returns {row inner items} hrow hparts _ := by
    obtain ⟨v, hv, -⟩ := h hrow hparts
    refine iff_of_true ⟨v, ?_⟩ (assembles_of_not_placeLabel (not_placeLabel_of_mem hf))
    rw [labelOf, constructed_of_mem (mem_constructions hf), hv]
  made {row inner items w} hrow hparts _ hw := by
    obtain ⟨v, hv, hfine⟩ := h hrow hparts
    rw [labelOf, constructed_of_mem (mem_constructions hf), hv] at hw
    cases hw
    exact hfine
  only hshape := by cases hshape

theorem Promise.Kept.of_row (hf : (label, f) ∈ ordinaryConstructions)
    (h : ∀ {inner items}, Parts row inner items →
      ∃ v, f items = .ok v ∧ Fine v ∧ promise (.node label inner) v) :
    promise.Kept ⟨name, .node label, [row]⟩ := by
  refine .of_made hf fun hrow hparts => ?_
  cases List.mem_singleton.mp hrow
  exact h hparts

theorem Promise.Kept.of_fine_row (hf : (label, f) ∈ ordinaryConstructions)
    (h : ∀ {inner items}, Parts row inner items → ∃ v, f items = .ok v ∧ Fine v) :
    noPromise.Kept ⟨name, .node label, [row]⟩ := by
  refine .of_row hf fun hparts => ?_
  obtain ⟨v, hv, hfine⟩ := h hparts
  exact ⟨v, hv, hfine, trivial⟩

/-- A construction that only picks out or puts together what it is given. -/
theorem Promise.Kept.of_fine {f : List Value → Value}
    (hf : (labelOf rule.shape, fun items => .ok (f items)) ∈ ordinaryConstructions)
    (h : ∀ items, AllFine items → Fine (f items)) : noPromise.Kept rule where
  returns {row inner items} _ _ _ :=
    iff_of_true ⟨_, constructed_of_mem (mem_constructions hf) items⟩
      (assembles_of_not_placeLabel (not_placeLabel_of_mem hf))
  made {row inner items w} _ hparts _ hw := by
    rw [constructed_of_mem (mem_constructions hf)] at hw
    cases hw
    exact ⟨h items hparts.fine, trivial⟩
  only _ _ _ := trivial

/-- A rule without a construction. -/
theorem keptTree_kept (hlabel : label ∈ treeLabels) :
    keptTree.Kept ⟨name, .node label, alternatives⟩ where
  returns {row inner items} _ _ _ :=
    iff_of_true ⟨_, constructed_of_treeLabel hlabel items⟩
      (assembles_of_not_placeLabel (not_placeLabel_of_treeLabel hlabel))
  made {row inner items w} _ hparts _ hw := by
    rw [labelOf, constructed_of_treeLabel hlabel items] at hw
    cases hw
    exact ⟨.tree hparts.fine, label, inner, items, hlabel, rfl, rfl⟩
  only hshape := by cases hshape

theorem keptBy_tree (hlabel : label ∈ treeLabels) :
    KeptBy ⟨name, .node label, alternatives⟩ (name, keptTree) :=
  ⟨rfl, fun _ => keptTree_kept hlabel⟩

/-- A rule that always gives way to its only part. -/
theorem Promise.Kept.of_single (hlabel : label ∈ treeLabels)
    (h : ∀ {row inner items}, row ∈ alternatives → Parts row inner items →
      ∃ tree v, inner = [tree] ∧ items = [v] ∧ promise tree v) :
    promise.Kept ⟨name, .collapsing label, alternatives⟩ where
  returns {row inner items} _ _ _ :=
    iff_of_true ⟨_, constructed_of_treeLabel hlabel items⟩
      (assembles_of_not_placeLabel (not_placeLabel_of_treeLabel hlabel))
  made {row inner items w} hrow hparts hnode _ := by
    obtain ⟨tree, _, hinner, -⟩ := h hrow hparts
    exact absurd hinner (hnode label tree rfl)
  only {row tree v _} _ hrow hparts := by
    obtain ⟨_, _, htree, hv, hpromise⟩ := h hrow hparts
    cases htree
    cases hv
    exact hpromise

/-- What a rule of code leaves has its form, and nothing stands in the way of it. -/
theorem Parts.leaves (h : Parts row inner items) (hmem : rule ∈ rules)
    (hname : rule.name ∈ codeNames) (hrow : row ∈ rule.alternatives) :
    ∃ v, Leaves rule.shape items v ∧ HasForm rule.name v := by
  have hrule := ruleNamed?_eq_some_iff.mpr ⟨hmem, rfl⟩
  have hcode := codeSpec_kept.builds h.forms h.values
  obtain ⟨v, hv, -, hform⟩ := code_yields hname hrule ⟨rule, row, hrule, hrow, hcode⟩
  exact ⟨v, hv, hform⟩

theorem Leaves.constructed {shape : Grammar.Shape} {v : Value} (h : Leaves shape items v)
    (hnode : StaysNode shape inner) (hitems : valuesOf inner = .ok items) :
    Build.constructed (labelOf shape) items = .ok v := by
  cases h with
  | only =>
    obtain ⟨tree, rfl, -⟩ := valuesOf_eq_single hitems
    exact absurd rfl (hnode _ tree rfl)
  | made _ h => exact h

theorem not_placeLabel_of_code (hmem : rule ∈ rules) (hname : rule.name ∈ codeNames) :
    labelOf rule.shape ∉ placeConstructions.map Prod.fst := by
  simpa using Syntax.of_ruleNamed
    (p := fun rule => !(placeConstructions.map Prod.fst).contains (labelOf rule.shape)) (by decide)
    hname (ruleNamed?_eq_some_iff.mpr ⟨hmem, rfl⟩)

/-- The constructions of code never refuse, and the form of a value says all that is promised. -/
theorem Promise.Kept.of_form (hmem : rule ∈ rules) (hname : rule.name ∈ codeNames)
    (h : ∀ {tree v}, HasForm rule.name v → Fine v ∧ promise tree v) : promise.Kept rule where
  returns {row inner items} hrow hparts hnode := by
    obtain ⟨v, hv, -⟩ := hparts.leaves hmem hname hrow
    exact iff_of_true ⟨v, hv.constructed hnode hparts.values⟩
      (assembles_of_not_placeLabel (not_placeLabel_of_code hmem hname))
  made {row inner items w} hrow hparts hnode hw := by
    obtain ⟨v, hv, hform⟩ := hparts.leaves hmem hname hrow
    cases hw.symm.trans (hv.constructed hnode hparts.values)
    exact h hform
  only {row tree w label} hshape hrow hparts := by
    obtain ⟨v, hv, hform⟩ := hparts.leaves hmem hname hrow
    rw [hshape] at hv
    cases hv with
    | only => exact (h hform).2
    | made hstays _ => exact absurd rfl (hstays label w rfl)

end Kept

end SattLine.Build
