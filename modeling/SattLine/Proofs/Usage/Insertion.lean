import SattLine.Proofs.Usage.Covering

/-!
Programs with statements inserted into them. Statements may be added to the blocks of equations, to
the three blocks of the steps in a sequence, and to the branches of conditional statements, however
deep they stand. Main statement: more statements mark no fewer uses, and leave no more variables
that are called unused.
-/

namespace SattLine

namespace Usage

/-- The lists in code that have statements in them, directly or further inside. -/
inductive CodeList where
  | statements
  | branches
  | nodes
  | nodeBranches

/-- What is found in such a list. -/
def CodeList.findings : CodeList → List Value → List Finding
  | .statements => expressions
  | .branches => branchesOf
  | .nodes => nodesOf
  | .nodeBranches => nodeBranchesOf

/-- Inside another statement, a statement stands in a tree. -/
def asStatement (inner : Bool) (v : Value) : Value :=
  if inner then .tree "Statement" false [v] else v

/-- A conditional statement with or without the block for the other cases. -/
def conditional (branches : List Value) (otherwise : Value) : Value :=
  .tuple [.text "IF", .list branches, otherwise]

/-- A step with the statements for entering it, staying in it and leaving it. -/
def stepNode (kind name : Value) (enter active exit : List Value) : Value :=
  .element .step [kind, name, .element .codeBlocks [.list enter, .list active, .list exit]]

/-- `Inserted kind items more`: the second list is the first one with statements inserted, at any
place where statements stand. -/
inductive Inserted : CodeList → List Value → List Value → Prop
  | nil (kind : CodeList) : Inserted kind [] []
  | keep {kind rest more} (v : Value) (h : Inserted kind rest more) :
      Inserted kind (v :: rest) (v :: more)
  | statement {rest more} (v : Value) (h : Inserted .statements rest more) :
      Inserted .statements rest (v :: more)
  | conditional {branches branches' otherwise otherwise' rest more} (inner : Bool)
      (hbranches : Inserted .branches branches branches')
      (hotherwise : Inserted .statements otherwise otherwise')
      (h : Inserted .statements rest more) :
      Inserted .statements (asStatement inner (conditional branches (.list otherwise)) :: rest)
        (asStatement inner (conditional branches' (.list otherwise')) :: more)
  | withoutElse {branches branches' rest more} (inner : Bool)
      (hbranches : Inserted .branches branches branches')
      (h : Inserted .statements rest more) :
      Inserted .statements (asStatement inner (conditional branches .null) :: rest)
        (asStatement inner (conditional branches' .null) :: more)
  | branch {condition body body' rest more} (hbody : Inserted .statements body body')
      (h : Inserted .branches rest more) :
      Inserted .branches (Build.branchOf condition body :: rest)
        (Build.branchOf condition body' :: more)
  | step {kind name enter enter' active active' exit exit' rest more}
      (henter : Inserted .statements enter enter') (hactive : Inserted .statements active active')
      (hexit : Inserted .statements exit exit') (h : Inserted .nodes rest more) :
      Inserted .nodes (stepNode kind name enter active exit :: rest)
        (stepNode kind name enter' active' exit' :: more)
  | branching {kind branches branches' rest more} (hkind : kind = .alternative ∨ kind = .parallel)
      (hbranches : Inserted .nodeBranches branches branches') (h : Inserted .nodes rest more) :
      Inserted .nodes (.element kind [.list branches] :: rest)
        (.element kind [.list branches'] :: more)
  | nested {kind name body body' rest more} (hkind : kind = .subsequence ∨ kind = .transitionSub)
      (hbody : Inserted .nodes body body') (h : Inserted .nodes rest more) :
      Inserted .nodes (.element kind [name, .list body] :: rest)
        (.element kind [name, .list body'] :: more)
  | nodeBranch {body body' rest more} (hbody : Inserted .nodes body body')
      (h : Inserted .nodeBranches rest more) :
      Inserted .nodeBranches (.list body :: rest) (.list body' :: more)

/-- An equation with statements inserted. -/
inductive InsertedEquation : Value → Value → Prop
  | mk {name position size block block'} (h : Inserted .statements block block') :
      InsertedEquation (.element .equation [name, position, size, .list block])
        (.element .equation [name, position, size, .list block'])

/-- A sequence with statements inserted into its steps. -/
inductive InsertedSequence : Value → Value → Prop
  | mk {name kind position size control timer nodes nodes'} (h : Inserted .nodes nodes nodes') :
      InsertedSequence
        (.element .sequence [name, kind, position, size, control, timer, .list nodes])
        (.element .sequence [name, kind, position, size, control, timer, .list nodes'])

/-- The code of a module with statements inserted. -/
inductive InsertedCode : Value → Value → Prop
  | none (code : Value) : InsertedCode code code
  | mk {sequences sequences' equations equations'}
      (hsequences : List.Forall₂ InsertedSequence sequences sequences')
      (hequations : List.Forall₂ InsertedEquation equations equations') :
      InsertedCode (.element .moduleCode [.list sequences, .list equations])
        (.element .moduleCode [.list sequences', .list equations'])

end Usage

/-- Modules with statements inserted into their code and that of the modules inside them. -/
inductive Module.Inserted : List Module → List Module → Prop
  | nil : Module.Inserted [] []
  | keep {rest more} (m : Module) (h : Module.Inserted rest more) :
      Module.Inserted (m :: rest) (m :: more)
  | single {info code inner inner' rest more} (hcode : Usage.InsertedCode info.code code)
      (hinner : Module.Inserted inner inner') (h : Module.Inserted rest more) :
      Module.Inserted (.single info inner :: rest) (.single { info with code := code } inner' :: more)
  | frame {info code inner inner' rest more} (hcode : Usage.InsertedCode info.code code)
      (hinner : Module.Inserted inner inner') (h : Module.Inserted rest more) :
      Module.Inserted (.frame info inner :: rest) (.frame { info with code := code } inner' :: more)

/-- A module type with statements inserted. -/
inductive TypeDef.Inserted : TypeDef → TypeDef → Prop
  | mk {type code submodules} (hcode : Usage.InsertedCode type.code code)
      (hsubmodules : Module.Inserted type.submodules submodules) :
      TypeDef.Inserted type { type with code := code, submodules := submodules }

/-- A program with statements inserted. -/
inductive Picture.Inserted : Picture → Picture → Prop
  | mk {p code submodules types} (hcode : Usage.InsertedCode p.code code)
      (hsubmodules : Module.Inserted p.submodules submodules)
      (htypes : List.Forall₂ TypeDef.Inserted p.types types) :
      Picture.Inserted p { p with code := code, submodules := submodules, types := types }

namespace Usage

theorem expression_asStatement (inner : Bool) (v : Value) :
    expression (asStatement inner v) = expression v := by
  cases inner <;> simp [asStatement, expression, expressions]

theorem expression_conditional (branches : List Value) (otherwise : Value) :
    expression (conditional branches otherwise) = branchesOf branches ++ block otherwise := by
  simp [conditional, expression, Value.text?, operation, Usage.branches]

theorem CodeList.findings_cons (kind : CodeList) (v : Value) (rest : List Value) :
    kind.findings (v :: rest) = kind.findings [v] ++ kind.findings rest := by
  cases kind with
  | statements => simp [CodeList.findings, expressions]
  | branches => exact branchesOf_cons v rest
  | nodes =>
    simp only [CodeList.findings]
    cases v <;> simp [nodesOf]
  | nodeBranches => simp [CodeList.findings, nodeBranchesOf]

theorem append_subset_append {a b c d : List Finding} (hab : a ⊆ b) (hcd : c ⊆ d) :
    a ++ c ⊆ b ++ d :=
  List.append_subset.mpr
    ⟨List.Subset.trans hab (List.subset_append_left _ _),
      List.Subset.trans hcd (List.subset_append_right _ _)⟩

variable {kind : CodeList} {items more : List Value} {find : Value → List Finding} {v v' : Value}

theorem Inserted.findings_subset (h : Inserted kind items more) :
    kind.findings items ⊆ kind.findings more := by
  induction h with
  | nil kind => exact fun _ h => h
  | @keep kind rest more v _ ih =>
    rw [kind.findings_cons, kind.findings_cons v more]
    exact append_subset_append (fun _ h => h) ih
  | statement v _ ih =>
    rw [CodeList.findings_cons]
    exact List.Subset.trans ih (List.subset_append_right _ _)
  | conditional inner _ _ _ hbranches hotherwise ih =>
    simp only [CodeList.findings, expressions, expression_asStatement, expression_conditional,
      block] at hbranches hotherwise ih ⊢
    exact append_subset_append (append_subset_append hbranches hotherwise) ih
  | withoutElse inner _ _ hbranches ih =>
    simp only [CodeList.findings, expressions, expression_asStatement, expression_conditional]
      at hbranches ih ⊢
    exact append_subset_append (append_subset_append hbranches fun _ h => h) ih
  | branch _ _ hbody ih =>
    simp only [CodeList.findings, Build.branchOf, branchesOf, block] at hbody ih ⊢
    exact append_subset_append (append_subset_append (fun _ h => h) hbody) ih
  | step _ _ _ _ henter hactive hexit ih =>
    simp only [CodeList.findings, stepNode, nodesOf, node, block] at henter hactive hexit ih ⊢
    exact append_subset_append (append_subset_append (append_subset_append henter hactive) hexit) ih
  | branching hkind _ _ hbranches ih =>
    rcases hkind with rfl | rfl <;>
    · simp only [CodeList.findings, nodesOf, node, nodeBranches] at hbranches ih ⊢
      exact append_subset_append hbranches ih
  | nested hkind _ _ hbody ih =>
    rcases hkind with rfl | rfl <;>
    · simp only [CodeList.findings, nodesOf, node, nodes] at hbody ih ⊢
      exact append_subset_append hbody ih
  | nodeBranch _ _ hbody ih =>
    simp only [CodeList.findings, nodeBranchesOf, nodes] at hbody ih ⊢
    exact append_subset_append hbody ih

theorem Inserted.ne_nil (h : Inserted kind items more) (hitems : items ≠ []) : more ≠ [] := by
  cases h <;> simp_all

/-- Insertion into the list of statements or nodes that an equation or a sequence has. -/
theorem inCode_subset (hfind : ∀ items, find (.list items) = kind.findings items)
    (hv : v.field? "code" = some (.list items)) (hv' : v'.field? "code" = some (.list more))
    (h : Inserted kind items more) : inCode find v ⊆ inCode find v' := by
  by_cases hitems : items = []
  · simp [inCode, hv, hitems, Value.holds]
  · have hholds : (Value.list items).holds = true := by simp [Value.holds, hitems]
    have hholds' : (Value.list more).holds = true := by simp [Value.holds, h.ne_nil hitems]
    simp only [inCode, hv, hv', hholds, hholds', hfind, ↓reduceIte]
    exact h.findings_subset

theorem InsertedEquation.subset (h : InsertedEquation v v') : equation v ⊆ equation v' := by
  obtain ⟨h⟩ := h
  exact inCode_subset (fun _ => by simp [block, CodeList.findings]) rfl rfl h

theorem InsertedSequence.subset (h : InsertedSequence v v') : sequence v ⊆ sequence v' := by
  obtain ⟨h⟩ := h
  exact inCode_subset (fun _ => by simp [nodes, CodeList.findings]) rfl rfl h

theorem flatMap_subset_of_forall₂ {R : Value → Value → Prop}
    (hR : ∀ v v', R v v' → find v ⊆ find v') (h : List.Forall₂ R items more) :
    items.flatMap find ⊆ more.flatMap find := by
  induction h with
  | nil => exact fun _ h => h
  | cons hv _ ih =>
    rw [List.flatMap_cons, List.flatMap_cons]
    exact append_subset_append (hR _ _ hv) ih

theorem InsertedCode.subset (h : InsertedCode v v') : code v ⊆ code v' := by
  cases h with
  | none => exact fun _ h => h
  | mk hsequences hequations =>
    simp only [code, inItems, Value.elements]
    exact append_subset_append (flatMap_subset_of_forall₂ (fun _ _ h => h.subset) hsequences)
      (flatMap_subset_of_forall₂ (fun _ _ h => h.subset) hequations)

theorem InsertedCode.covered (h : InsertedCode v v') : Covered (code v) (code v') :=
  .of_subset h.subset

end Usage

namespace Module

/-- Insertion starts with inserting nothing. -/
theorem Inserted.refl : ∀ modules : List Module, Module.Inserted modules modules
  | [] => .nil
  | m :: rest => .keep m (refl rest)

theorem covered_refl : ∀ modules : List Module, Module.Covered modules modules
  | [] => .nil
  | .single _ inner :: rest =>
    .single ⟨.refl _, .refl _, .refl _, rfl, rfl, Mapping.Alike.forall₂_refl _⟩ (covered_refl inner)
      (covered_refl rest)
  | .frame _ inner :: rest =>
    .frame ⟨.refl _, .refl _, .refl _⟩ (covered_refl inner) (covered_refl rest)
  | .typed _ :: rest => .typed (.refl _) (covered_refl rest)
  | .stray value :: rest => .stray value (covered_refl rest)

theorem Inserted.covered {modules more : List Module} (h : Module.Inserted modules more) :
    Module.Covered modules more := by
  induction h with
  | nil => exact .nil
  | keep m _ ih =>
    cases m with
    | single info inner =>
      exact .single ⟨.refl _, .refl _, .refl _, rfl, rfl, Mapping.Alike.forall₂_refl _⟩
        (covered_refl inner) ih
    | frame info inner => exact .frame ⟨.refl _, .refl _, .refl _⟩ (covered_refl inner) ih
    | typed info => exact .typed (.refl info) ih
    | stray value => exact .stray value ih
  | single hcode _ _ hinner ih =>
    exact .single ⟨.refl _, .refl _, hcode.covered, rfl, rfl, Mapping.Alike.forall₂_refl _⟩ hinner
      ih
  | frame hcode _ _ hinner ih => exact .frame ⟨.refl _, .refl _, hcode.covered⟩ hinner ih

end Module

theorem TypeDef.Inserted.covered {type type' : TypeDef} (h : type.Inserted type') :
    type.Covered type' := by
  obtain ⟨hcode, hsubmodules⟩ := h
  exact ⟨rfl, rfl, rfl, hsubmodules.covered, .refl _, hcode.covered,
    Mapping.Alike.forall₂_refl _, .refl _, rfl⟩

theorem Picture.Inserted.covered {p p' : Picture} (h : p.Inserted p') : p.Covered p' := by
  obtain ⟨hcode, hsubmodules, htypes⟩ := h
  exact ⟨.refl _, htypes.imp fun _ _ h => h.covered, rfl, hsubmodules.covered, .refl _,
    hcode.covered, rfl⟩

namespace Usage

/-- With statements inserted anywhere, every variable that was read or written is so still, and no
further variable is called unused. -/
theorem uses_grow_with_statements {p p' : Picture} (hinserted : p.Inserted p') {marks : Marks}
    {issues issues' : List Issue} (hrun : (analyze p marks).1 = .ok issues)
    (hrun' : (analyze p' marks).1 = .ok issues') :
    (∀ v, ((analyze p marks).2.get v).read = true → ((analyze p' marks).2.get v).read = true) ∧
    (∀ v, ((analyze p marks).2.get v).written = true →
      ((analyze p' marks).2.get v).written = true) ∧
    calledUnused issues' ⊆ calledUnused issues := by
  obtain ⟨hmarks, hunused⟩ := Covered.analyze hinserted.covered hrun hrun'
  exact ⟨fun v => (hmarks.get v).has .read, fun v => (hmarks.get v).has .write, hunused⟩

/-! A module type with a step whose blocks are empty and a condition without statements. -/

/-- The code `Shown = Level`, as a statement. -/
def assignShown : Value :=
  .tuple [.text "assign", reference "Shown", reference "Level"]

def watchCode (enter body : List Value) : Value :=
  .element .moduleCode
    [.list [.element .sequence [.text "Run", .text "SEQUENCE", .null, .null, .bool false,
      .bool false, .list [stepNode (.text "init") (.text "Start") enter [] []]]],
    .list [.element .equation [.text "Watch", .null, .null,
      .list [conditional [Build.branchOf (reference "Level") body] .null]]]]

def watchType (enter body : List Value) : TypeDef :=
  { displayType with code := watchCode enter body }

def watchPicture (enter body : List Value) : Picture :=
  { chainedPicture with types := [watchType enter body] }

theorem watchPicture_inserted {enter enter' body body' : List Value}
    (henter : Inserted .statements enter enter') (hbody : Inserted .statements body body') :
    (watchPicture enter body).Inserted (watchPicture enter' body') := by
  have hstep : Inserted .nodes [stepNode (.text "init") (.text "Start") enter [] []]
      [stepNode (.text "init") (.text "Start") enter' [] []] :=
    .step henter (.nil _) (.nil _) (.nil _)
  have hcondition : Inserted .statements
      [asStatement false (conditional [Build.branchOf (reference "Level") body] .null)]
      [asStatement false (conditional [Build.branchOf (reference "Level") body'] .null)] :=
    .withoutElse false (.branch hbody (.nil _)) (.nil _)
  exact .mk (.none _) (Module.Inserted.refl _)
    (.cons (.mk (.mk (.cons (.mk hstep) .nil) (.cons (.mk hcondition) .nil)) .nil) .nil)

/-- Without the statements nothing is shown. -/
theorem watch_returns : ∃ issues, (analyze (watchPicture [] []) chainedMarks).1 = .ok issues ∧
    issues.map (fun issue => (issue.kind, issue.subject.id)) = [(.readOnly, 2), (.unused, 1)] :=
  analyze_returns (by decide)

theorem watch_more_returns :
    ∃ issues, (analyze (watchPicture [assignShown] [asStatement true assignShown])
        chainedMarks).1 = .ok issues ∧
      issues.map (fun issue => (issue.kind, issue.subject.id)) =
        [(.readOnly, 2), (.neverRead, 1)] :=
  analyze_returns (by decide)

theorem watched_uses_grow :
    (watchPicture [] []).Inserted (watchPicture [assignShown] [asStatement true assignShown]) ∧
    ∃ issues issues', (analyze (watchPicture [] []) chainedMarks).1 = .ok issues ∧
      (analyze (watchPicture [assignShown] [asStatement true assignShown]) chainedMarks).1 =
        .ok issues' ∧
      issues.map (fun issue => (issue.kind, issue.subject.id)) = [(.readOnly, 2), (.unused, 1)] ∧
      issues'.map (fun issue => (issue.kind, issue.subject.id)) =
        [(.readOnly, 2), (.neverRead, 1)] ∧
      calledUnused issues' ⊆ calledUnused issues := by
  obtain ⟨issues, hrun, hissues⟩ := watch_returns
  obtain ⟨issues', hrun', hissues'⟩ := watch_more_returns
  have hinserted := watchPicture_inserted (.statement assignShown (.nil _))
    (.statement (asStatement true assignShown) (.nil _))
  exact ⟨hinserted, issues, issues', hrun, hrun', hissues, hissues',
    (uses_grow_with_statements hinserted hrun hrun').2.2⟩

end Usage

end SattLine
