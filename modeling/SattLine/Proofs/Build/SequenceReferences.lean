import SattLine.Proofs.Build.CodeReferences

/-!
The nodes of sequences and the blocks of code keep their forms and their references.
-/

namespace SattLine.Build

open List
open Grammar (Part)
open Syntax (Tree ruleNamed?)

section Constructions

variable {name : String} {rest : List Part} {inner : List Tree} {items : List Value}

variable {key keyword : String} {kind : Element}

/-- The three kinds of action blocks are statements behind a keyword, under different names. -/
theorem action_yields {kind : String} (h : OfRule codeSpec name inner items)
    (hrule : Grammar.node name [[.token kind, .many [[.rule "statement"]]]] ∈ Grammar.rules)
    (hname : name ≠ "variable_name")
    (hf : (name, fun items => .ok (action key items)) ∈ constructions)
    (hkeeps : ∀ text, lexemeValue? kind text = none) (hkey : key ≠ "var_name")
    (hform : ∀ v, HasForm name v = IsActionOf key v) : Yields name (.node name) items := by
  obtain ⟨_, symbol, _, _, rfl, rfl, h₁⟩ := (h.only hrule).of_keyword hkeeps
  obtain ⟨_, _, _, _, rfl, rfl, hrounds, hnil⟩ := h₁.of_many
  cases hnil
  obtain ⟨block, rfl, hblock⟩ := instructions_of_rounds hrounds
  have haction : action key (.token kind symbol :: (block.map wrapped ++ [])) =
      .dict [.text key] [.list block] := by
    rw [append_nil, ← congrArg Value.list (statementsOf_wrapped block)]
    rfl
  refine .of_node hname hf rfl ?_ ?_
  · rw [haction, references_entry hkey]
    simp
  · rw [hform, haction]
    exact ⟨block, rfl, hblock⟩

/-- A block of actions that may be left out. -/
def actionsOf (key : String) (block : Option (List Value)) : List Value :=
  block.toList.map fun statements => .dict [.text key] [.list statements]

theorem Builds.of_actions (hname : name ∈ codeNames)
    (hform : ∀ v, HasForm name v = IsActionOf key v)
    (h : Builds codeSpec (.opt [[.rule name]] :: rest) inner items) :
    ∃ (block : Option (List Value)) (others : _) (following : _),
      items = actionsOf key block ++ following ∧ (∀ x ∈ block.getD [], IsInstruction x) ∧
        Builds codeSpec rest others following := by
  obtain ⟨part, others, following, rfl, hpart, hrest⟩ := h.of_optional hname
  cases part with
  | none => exact ⟨none, others, following, rfl, by simp, hrest⟩
  | some v =>
    have hv := hpart v rfl
    rw [hform] at hv
    obtain ⟨block, rfl, hblock⟩ := hv
    exact ⟨some block, others, following, rfl, by simpa using hblock, hrest⟩

theorem extension_list (xs : List Value) : extension (.list xs) = .ok xs := by
  cases xs <;> rfl

theorem referencesIn_actionsOf (hkey : key ≠ "var_name") (block : Option (List Value)) :
    referencesIn (actionsOf key block) = referencesIn (block.getD []) := by
  cases block <;> simp [actionsOf, references_entry hkey]

/-- The blocks under one key are those of its own actions. -/
theorem entries_actionsOf (own key : String) (block : Option (List Value)) :
    (actionsOf own block).filterMap (fun v => v.get? key) =
      if own = key then block.toList.map .list else [] := by
  cases block with
  | none => simp [actionsOf]
  | some statements =>
    by_cases hkey : own = key <;> simp [actionsOf, Value.get?, Value.text?, hkey]

theorem mapM_extension (block : Option (List Value)) :
    (block.toList.map Value.list).mapM extension = .ok block.toList := by
  cases block with
  | none => rfl
  | some statements =>
    rw [Option.toList_some, map_singleton, mapM_cons, extension_list]
    rfl

theorem codeBlocks_actionsOf (enter active exit : Option (List Value)) :
    codeBlocks (actionsOf "enter" enter ++ (actionsOf "active" active ++ actionsOf "exit" exit)) =
      .ok (.element .codeBlocks
        [.list (enter.getD []), .list (active.getD []), .list (exit.getD [])]) := by
  have hflat : ∀ block : Option (List Value), block.toList.flatten = block.getD [] := by
    rintro (_ | block)
    · rfl
    · exact append_nil block
  simp only [codeBlocks, filterMap_append, entries_actionsOf, String.reduceEq, ↓reduceIte, append_nil,
    nil_append, mapM_extension, bind, Except.bind, ← hflat]
  rfl

theorem code_blocks_yields (h : OfRule codeSpec "code_blocks" inner items) :
    Yields "code_blocks" (.node "code_blocks") items := by
  obtain ⟨enter, _, _, rfl, henter, h₁⟩ :=
    (h.only (by repeat constructor)).of_actions (by decide) fun _ => rfl
  obtain ⟨active, _, _, rfl, hactive, h₂⟩ := h₁.of_actions (by decide) fun _ => rfl
  obtain ⟨exit, _, _, rfl, hexit, hnil⟩ := h₂.of_actions (by decide) fun _ => rfl
  cases hnil
  rw [append_nil]
  refine .of_node (by decide) (by repeat constructor) (codeBlocks_actionsOf enter active exit) ?_
    ⟨_, _, _, rfl, henter, hactive, hexit⟩
  simp [referencesIn_actionsOf]

theorem references_calledBy (items : List Value) :
    references (orEmpty (firstOrNull Value.isText items)) = [] :=
  references_of_isText (isText_calledBy items)

/-- The two kinds of steps: a keyword, a name and the blocks of actions. -/
theorem step_yields {kind : String} (h : OfRule codeSpec name inner items)
    (hrule : Grammar.node name [[.token keyword, .token "NAME", .rule "code_blocks"]] ∈
      Grammar.rules) (hname : name ≠ "variable_name")
    (hf : (name, fun items => .ok (step kind items)) ∈ constructions)
    (hkeeps : ∀ text, lexemeValue? keyword text = none) (hform : ∀ v, HasForm name v = IsNode v) :
    Yields name (.node name) items := by
  obtain ⟨_, symbol, _, _, rfl, rfl, h₁⟩ := (h.only hrule).of_keyword hkeeps
  obtain ⟨_, called, _, _, rfl, rfl, h₂⟩ := h₁.of_name
  obtain ⟨_, rfl, hblocks⟩ := h₂.of_last (by decide)
  obtain ⟨enter, active, exit, rfl, henter, hactive, hexit⟩ := hblocks
  refine .of_node hname hf rfl ?_ ?_
  · simp [step, lastOrNull, Value.isElement, references_calledBy]
  · rw [hform]
    exact .step (isText_calledBy _) henter hactive hexit

theorem seqtransition_yields (h : OfRule codeSpec "seqtransition" inner items) :
    Yields "seqtransition" (.node "seqtransition") items := by
  obtain ⟨_, symbol, _, _, rfl, rfl, h₁⟩ := (h.only (by repeat constructor)).of_keyword fun _ => rfl
  have hlast : ∀ before condition, IsExpression condition →
      transitionFrom (.token "SEQTRANSITION" symbol) before [condition] =
        .element .transition [.token "SEQTRANSITION" symbol, condition] := by
    intro before condition hcondition
    simp [transitionFrom, hcondition.isToken, Value.isNull]
  rcases h₁.of_opt with ⟨_, hrow, _, _, _, _, rfl, rfl, hfirst, hrest⟩ | hrest
  · obtain rfl := mem_singleton.mp hrow
    obtain ⟨_, called, _, _, rfl, rfl, hnil⟩ := hfirst.of_name
    cases hnil
    obtain ⟨_, waits, condition, rfl, hcondition⟩ := hrest.isPair (by decide) fun _ => rfl
    have hvalue := hlast (.text called) condition hcondition
    exact .of_node (by decide) (by repeat constructor) (by exact congrArg Except.ok hvalue) (by simp)
      (IsNode.transition rfl hcondition)
  · obtain ⟨_, waits, condition, rfl, hcondition⟩ := hrest.isPair (by decide) fun _ => rfl
    have hvalue := hlast .null condition hcondition
    exact .of_node (by decide) (by repeat constructor) (by exact congrArg Except.ok hvalue) (by simp)
      (IsNode.transition rfl hcondition)

/-- The two kinds of nested sequences: a keyword, a name, the nodes and a closing keyword. -/
theorem nested_yields {first last : String} (h : OfRule codeSpec name inner items)
    (hrule : Grammar.node name [[.token first, .token "NAME",
      .rule "sequence_body", .token last]] ∈ Grammar.rules) (hname : name ≠ "variable_name")
    (hkind : kind = .subsequence ∨ kind = .transitionSub)
    (hf : (name, fun items => .ok (nested kind items)) ∈ constructions)
    (hfirst : ∀ text, lexemeValue? first text = none)
    (hlast : ∀ text, lexemeValue? last text = none) (hform : ∀ v, HasForm name v = IsNode v) :
    Yields name (.node name) items := by
  obtain ⟨_, symbol, _, _, rfl, rfl, h₁⟩ := (h.only hrule).of_keyword hfirst
  obtain ⟨_, called, _, _, rfl, rfl, h₂⟩ := h₁.of_name
  obtain ⟨_, _, _, rfl, hbody, h₃⟩ := h₂.of_code (by decide)
  obtain ⟨_, closing, _, _, rfl, rfl, hnil⟩ := h₃.of_keyword hlast
  cases hnil
  obtain ⟨nodes, rfl, hnodes⟩ := hbody
  have hopened : lastChildren "sequence_body" [.token first symbol, .text called,
      .tree "sequence_body" false nodes, .token last closing] = nodes := rfl
  refine .of_node hname hf rfl ?_ ?_
  · simp [nested, hopened, references_calledBy]
  · rw [hform, nested, hopened]
    exact .nested hkind (isText_calledBy _) hnodes

/-- The nodes of the branches, opened one after the other, with keywords between them. -/
theorem filterMap_operatorRow {sides : List ((String × String) × Value)}
    (h : ∀ side ∈ sides, HasForm "sequence_body" side.2) :
    ∃ bodies, (operatorRow sides).filterMap (Value.treeChildren? "sequence_body") = bodies ∧
      (∀ body ∈ bodies, ∀ node ∈ body, IsNode node) ∧
        referencesIn (bodies.map .list) = referencesIn (operatorRow sides) := by
  induction sides with
  | nil => exact ⟨[], rfl, by simp, rfl⟩
  | cons side rest ih =>
    obtain ⟨hside, hrest⟩ := forall_mem_cons.mp h
    obtain ⟨bodies, hbodies, hnodes, hreferences⟩ := ih hrest
    obtain ⟨⟨kind, symbol⟩, v⟩ := side
    obtain ⟨body, rfl, hbody⟩ := hside
    refine ⟨body :: bodies, ?_, forall_mem_cons.mpr ⟨hbody, hnodes⟩, ?_⟩
    · rw [← hbodies]
      rfl
    · simp only [map_cons, referencesIn_cons, hreferences]
      simp [operatorRow]

/-- Alternatives and parallels: branches between a first and a last keyword. -/
theorem branches_yields {first again last : String} (h : OfRule codeSpec name inner items)
    (hrule : Grammar.node name [[.token first, .rule "sequence_body",
      .some1 [[.token again, .rule "sequence_body"]], .token last]] ∈ Grammar.rules)
    (hname : name ≠ "variable_name") (hkind : kind = .alternative ∨ kind = .parallel)
    (hf : (name, fun items => .ok (branches kind items)) ∈ constructions)
    (hfirst : ∀ text, lexemeValue? first text = none)
    (hagain : ∀ text, lexemeValue? again text = none)
    (hlast : ∀ text, lexemeValue? last text = none) (hform : ∀ v, HasForm name v = IsNode v) :
    Yields name (.node name) items := by
  obtain ⟨_, symbol, _, _, rfl, rfl, h₁⟩ := (h.only hrule).of_keyword hfirst
  obtain ⟨body, _, _, rfl, hbody, h₂⟩ := h₁.of_code (by decide)
  obtain ⟨_, _, _, _, rfl, rfl, hrounds, h₃⟩ := h₂.of_some1
  obtain ⟨_, closing, _, _, rfl, rfl, hnil⟩ := h₃.of_keyword hlast
  cases hnil
  obtain ⟨sides, rfl, hsides⟩ :=
    operatorRow_of_rounds (fun h => h.isPair (by decide) hagain) hrounds
  obtain ⟨bodies, hbodies, hnodes, hreferences⟩ :=
    @filterMap_operatorRow (((first, symbol), body) :: sides) (forall_mem_cons.mpr ⟨hbody, hsides⟩)
  have hitems : Value.token first symbol :: body :: (operatorRow sides ++ [Value.token last closing]) =
      operatorRow (((first, symbol), body) :: sides) ++ [Value.token last closing] := rfl
  have hopened : branches kind (Value.token first symbol :: body ::
      (operatorRow sides ++ [Value.token last closing])) = .element kind [.list (bodies.map .list)] := by
    rw [hitems, branches, filterMap_append, hbodies]
    simp [Value.treeChildren?]
  refine .of_node hname hf rfl ?_ ?_
  · rw [hopened, hitems, referencesIn_append, ← hreferences]
    simp
  · rw [hform, hopened]
    exact .branched hkind hnodes

theorem seqfork_yields (h : OfRule codeSpec "seqfork" inner items) :
    Yields "seqfork" (.node "seqfork") items := by
  refine .of_node (by decide) (by repeat constructor) (by rfl) ?_
    (IsNode.fork (isText_calledBy items))
  rw [(h.only (by repeat constructor)).referencesIn_eq_nil rfl]
  simp [references_calledBy]

theorem seqbreak_yields (h : OfRule codeSpec "seqbreak" inner items) :
    Yields "seqbreak" (.node "seqbreak") items := by
  refine .of_node (by decide) (by repeat constructor) (by rfl) ?_ IsNode.stop
  rw [(h.only (by repeat constructor)).referencesIn_eq_nil rfl]
  simp

theorem seq_element_yields (h : OfRule codeSpec "seq_element" inner items) :
    Yields "seq_element" (.node "seq_element") items := by
  obtain ⟨_, hrow, hparts⟩ := h.row (by repeat constructor)
  obtain ⟨part, hpart, _, v, rfl, rfl, hv⟩ := hparts.of_names ["seqinitstep", "seqstep",
    "seqtransition", "seqtransitionsub", "seqsub", "seqfork", "seqbreak"] hrow
  refine .of_node (by decide) (by repeat constructor) (by rfl) (by simp) (show IsNode v from ?_)
  simp only [mem_cons, not_mem_nil, or_false] at hpart
  rcases hpart with rfl | rfl | rfl | rfl | rfl | rfl | rfl <;> exact (hv (by decide)).form

theorem sequence_body_yields (h : OfRule codeSpec "sequence_body" inner items) :
    Yields "sequence_body" (.node "sequence_body") items := by
  refine .of_node (by decide) (by repeat constructor) (by rfl) (references_tree _ _ _)
    ⟨items, rfl, ?_⟩
  have hnames : Listed ["seq_element", "seqparallel", "seqalternative"] (pickRow nameHere
      [.many [[.rule "seq_element"], [.rule "seqparallel"], [.rule "seqalternative"]]]) := by
    repeat constructor
  have hparts := h.only (by repeat constructor)
  refine forall_of_forall₂ (hparts.each (fun _ _ hkind => nomatch hkind) ?_)
  intro part hpart _ v hv
  have hpart := hnames.mem hpart
  simp only [mem_cons, not_mem_nil, or_false] at hpart
  rcases hpart with rfl | rfl | rfl <;> exact (hv (by decide)).form

theorem seq_control_opt_yields (h : OfRule codeSpec "seq_control_opt" inner items) :
    Yields "seq_control_opt" (.node "seq_control_opt") items := by
  have htokens : ∀ x ∈ items.filter Value.isToken, x.isToken = true :=
    fun x hx => (mem_filter.mp hx).2
  refine .of_node (by decide) (by repeat constructor) (by rfl) ?_ ⟨_, rfl, htokens⟩
  rw [(h.only (by repeat constructor)).referencesIn_eq_nil rfl, references_tree]
  exact referencesIn_eq_nil fun x hx => references_of_isToken (htokens x hx)

/-- The place and the size of a block: two reals behind a keyword. -/
theorem place_yields (h : OfRule codeSpec name inner items)
    (hrule : Grammar.node name [[.token keyword, .token "REAL",
      .mark "COMMA", .token "REAL"]] ∈ Grammar.rules) (hname : name ≠ "variable_name")
    (hf : (name, placeOf) ∈ constructions) (hkeeps : ∀ text, lexemeValue? keyword text = none)
    (hform : ∀ x y, HasForm name (realPair x y)) : Yields name (.node name) items := by
  obtain ⟨_, symbol, _, _, rfl, rfl, h₁⟩ := (h.only hrule).of_keyword hkeeps
  obtain ⟨_, _, _, _, rfl, rfl, hkind, hfirst, h₂⟩ := h₁.of_token
  obtain ⟨x, rfl⟩ := real_of_leaf hkind hfirst
  obtain ⟨_, _, _, _, rfl, rfl, hkind, hsecond, hnil⟩ := h₂.of_mark.of_token
  obtain ⟨y, rfl⟩ := real_of_leaf hkind hsecond
  cases hnil
  have hplace : placeOf [.token keyword symbol, .real x, .real y] = .ok (realPair x y) := rfl
  exact .of_node hname hf hplace (by simp [realPair]) (hform x y)

theorem layer_info_yields (h : OfRule codeSpec "layer_info" inner items) :
    Yields "layer_info" (.node "layer_info") items := by
  obtain ⟨_, symbol, _, _, rfl, rfl, h₁⟩ := (h.only (by repeat constructor)).of_keyword fun _ => rfl
  obtain ⟨_, _, _, _, rfl, rfl, hkind, hv, hnil⟩ := h₁.of_mark.of_token
  obtain ⟨n, rfl⟩ := int_of_leaf hkind hv
  cases hnil
  have hlayer : references (.int n) = [] := references_of_int rfl
  exact .of_node (by decide) (by repeat constructor) (by rfl) (by simp [hlayer]) ⟨n, rfl⟩

/-- The place, the size and the layer, as they stand in the items of a block. Nothing in them is
opened, and they refer to nothing. -/
theorem Builds.of_places
    (h : Builds codeSpec (.rule "codeblock_coord" :: .rule "objsizedef" ::
      .opt [[.rule "layer_info"]] :: rest) inner items) :
    ∃ (x y width height : Number.Double) (layer : List Value) (others : _) (following : _),
      items = realPair x y :: realPair width height :: (layer ++ following) ∧
        (∀ label, allChildren label layer = []) ∧ referencesIn layer = [] ∧
          Builds codeSpec rest others following := by
  obtain ⟨_, _, _, rfl, hplace, h₁⟩ := h.of_code (by decide)
  obtain ⟨_, _, _, rfl, hsize, h₂⟩ := h₁.of_code (by decide)
  obtain ⟨layer, others, following, rfl, hlayer, h₃⟩ := h₂.of_optional (by decide)
  obtain ⟨x, y, rfl⟩ := hplace
  obtain ⟨width, height, rfl⟩ := hsize
  refine ⟨x, y, width, height, layer.toList, others, following, rfl, ?_, ?_, h₃⟩
  · cases layer with
    | none => exact fun _ => rfl
    | some v =>
      obtain ⟨n, rfl⟩ := hlayer v rfl
      exact fun _ => rfl
  · cases layer with
    | none => rfl
    | some v =>
      obtain ⟨n, rfl⟩ := hlayer v rfl
      simp [references]

theorem allChildren_append (label : String) (first rest : List Value) :
    allChildren label (first ++ rest) = allChildren label first ++ allChildren label rest :=
  flatMap_append

theorem equationblock_yields (h : OfRule codeSpec "equationblock" inner items) :
    Yields "equationblock" (.node "equationblock") items := by
  obtain ⟨_, symbol, _, _, rfl, rfl, h₁⟩ := (h.only (by repeat constructor)).of_keyword fun _ => rfl
  obtain ⟨_, called, _, _, rfl, rfl, h₂⟩ := h₁.of_name
  obtain ⟨x, y, width, height, layer, _, _, rfl, hlayer, hnone, h₃⟩ := h₂.of_places
  obtain ⟨_, _, _, _, rfl, rfl, hrounds, hnil⟩ := h₃.of_mark.of_many
  cases hnil
  obtain ⟨block, rfl, hblock⟩ := instructions_of_rounds hrounds
  have hframe := @blockFrame_eq "EQUATIONBLOCK" symbol called [] (by simp) x y width height
    (layer ++ (block.map wrapped ++ []))
  rw [nil_append, append_nil] at hframe
  rw [append_nil]
  generalize hitems : Value.token "EQUATIONBLOCK" symbol :: .text called :: realPair x y ::
    realPair width height :: (layer ++ block.map wrapped) = items at hframe ⊢
  have hopened : statementsOf items = block := by
    have hlead : ∀ rest, statementsOf (.token "EQUATIONBLOCK" symbol :: .text called ::
        realPair x y :: realPair width height :: rest) = statementsOf rest := fun _ => rfl
    rw [← hitems, hlead, statementsOf, allChildren_append, hlayer]
    exact statementsOf_wrapped block
  have hbuilt : equationBlock items = .ok (.element .equation
      [.text called, realPair x y, realPair width height, .list block]) := by
    rw [equationBlock, hframe, hopened]
    rfl
  refine .of_node (by decide) (by repeat constructor) hbuilt ?_
    ⟨called, x, y, width, height, block, rfl, hblock⟩
  rw [← hitems]
  simp [realPair, hnone]

theorem sequence_yields (h : OfRule codeSpec "sequence" inner items) :
    Yields "sequence" (.node "sequence") items := by
  obtain ⟨first, _, _, rfl, rfl, -, h₁⟩ :=
    (h.only (by repeat constructor)).of_keywords ["SEQUENCE", "OPENSEQUENCE"] (by repeat constructor)
  obtain ⟨_, called, _, _, rfl, rfl, h₂⟩ := h₁.of_name
  obtain ⟨control, _, _, rfl, hcontrol, h₃⟩ := h₂.of_optional (by decide)
  obtain ⟨x, y, width, height, layer, _, _, rfl, hlayer, hnone, h₄⟩ := h₃.of_places
  obtain ⟨_, _, _, rfl, hbody, h₅⟩ := h₄.of_code (by decide)
  obtain ⟨last, _, _, rfl, rfl, -, hnil⟩ :=
    h₅.of_keywords ["ENDSEQUENCE", "ENDOPENSEQUENCE"] (by repeat constructor)
  cases hnil
  obtain ⟨nodes, rfl, hnodes⟩ := hbody
  have hcontrols : (∀ v ∈ control.toList, numberPair? v = none) ∧
      allChildren "sequence_body" control.toList = [] ∧ referencesIn control.toList = [] := by
    cases control with
    | none => exact ⟨by simp, rfl, rfl⟩
    | some v =>
      obtain ⟨controls, rfl, htokens⟩ := hcontrol v rfl
      have hnothing := referencesIn_eq_nil fun x hx => references_of_isToken (htokens x hx)
      exact ⟨by simp [numberPair?], rfl, by simp [hnothing]⟩
  obtain ⟨hplaces, hunopened, hunrelated⟩ := hcontrols
  have hframe := blockFrame_eq first.kind first.text called hplaces x y width height
    (layer ++ [Value.tree "sequence_body" false nodes, .token last.kind last.text])
  generalize hitems : Value.token first.kind first.text :: .text called ::
    (control.toList ++ realPair x y :: realPair width height ::
      (layer ++ [Value.tree "sequence_body" false nodes, .token last.kind last.text])) = items at hframe ⊢
  have hopened : allChildren "sequence_body" items = nodes := by
    have hlead : ∀ rest, allChildren "sequence_body" (.token first.kind first.text ::
        .text called :: rest) = allChildren "sequence_body" rest := fun _ => rfl
    have hpairs : ∀ rest, allChildren "sequence_body" (realPair x y :: realPair width height ::
        rest) = allChildren "sequence_body" rest := fun _ => rfl
    have hbody : allChildren "sequence_body" [.tree "sequence_body" false nodes,
        .token last.kind last.text] = nodes ++ [] := rfl
    rw [← hitems, hlead, allChildren_append, hunopened, hpairs, allChildren_append, hlayer, hbody]
    simp
  have hreferences : referencesIn items = referencesIn nodes := by
    rw [← hitems]
    simp [realPair, hnone, hunrelated]
  have hbuilt : Build.sequence items = .ok (.element .sequence [.text called,
      .text (sequenceKind items), realPair x y, realPair width height,
      .bool (((allChildren "seq_control_opt" items).filterMap keyword?).contains "SeqControl"),
      .bool (((allChildren "seq_control_opt" items).filterMap keyword?).contains "SeqTimer"),
      .list nodes]) := by
    rw [Build.sequence, hframe, hopened]
    rfl
  refine .of_node (by decide) (by repeat constructor) hbuilt ?_
    ⟨called, _, x, y, width, height, _, _, nodes, rfl, hnodes⟩
  simp [realPair, hreferences]

end Constructions

end SattLine.Build
