import SattLine.Proofs.Syntax.Check
import SattLine.Proofs.Usage.Graphics
import SattLine.Proofs.Usage.Unused

/-!
The pictures of modules in the analysis of a program. Whatever is found in the picture of the
program, or in that of a module below it, is marked. Main statement: of the variables connected to
the properties of a picture, the analysis reads exactly those of its enabling parts.
-/

namespace SattLine.Usage

open Walk
open Syntax (Tree IsOf word variableTree)
open Build (valueOf valuesOf valueOf_node_eq_ok valuesOf_cons_eq_ok)

/-- A picture in a program, with the variables that it may refer to. -/
inductive Drawn (p : Picture) : List Variable → Value → Prop
  | picture : Drawn p p.locals p.definition
  | module {info inner} (h : Module.Inside p.submodules (.single info inner)) :
      Drawn p info.scope info.definition

section Walks

variable {p : Picture} {onType : TypeDef → Path → Walk Unit} {s s' : State} {u : Unit}

/-- The findings are recorded at some time between two states. -/
def Recorded (p : Picture) (s : State) (scope : List Variable) (found : List Finding)
    (s' : State) : Prop :=
  ∃ path t u t', s.Grows t ∧ (record p scope path found).Ends t u t' ∧ t'.Grows s'

variable {scope : List Variable} {found : List Finding} {o : Occurrence} {v : Variable}
  {drawing : Value}

theorem Recorded.grows {t t' : State} (h : Recorded p t scope found t') (hbefore : s.Grows t)
    (hafter : t'.Grows s') : Recorded p s scope found s' := by
  obtain ⟨path, r, u, r', hr, hrecord, hr'⟩ := h
  exact ⟨path, r, u, r', hbefore.trans hr, hrecord, hr'.trans hafter⟩

theorem Recorded.marked (h : Recorded p s scope found s') (ho : .ok o ∈ found)
    (hv : resolve p scope o = some v) (hid : v.id < s.marks.entries.size) :
    s'.marks.Has v o.access := by
  obtain ⟨path, t, _, t', ht, hrecord, ht'⟩ := h
  have hmarked := record_has hrecord ho hv (ht.marks.size_eq ▸ hid)
  exact ht'.marks.keeps v _ hmarked

/-- The picture of every module is recorded, however deep the module stands. -/
theorem walkModules_records (hon : OnlyAdds onType) {single : SingleInfo}
    {modules below : List Module} {scope : List Variable} {path : Path}
    (hm : Module.Inside modules (.single single below))
    (h : (walkModules p onType scope path modules).Ends s u s') :
    Recorded p s single.scope (definition single.definition) s' := by
  have hgrows : ∀ ⦃name type path⦄, p.type? name = some type →
      (onType type path).Keeps State.Grows := fun _ _ _ _ _ _ _ hwalk => hon hwalk
  generalize hmodule : Module.single single below = m at hm
  induction hm generalizing scope path s s' u with
  | here hm =>
    subst hmodule
    obtain ⟨t, _, t', ht, hwalk, ht'⟩ := State.grows_closed.of_mem hgrows hm h
    simp only [walkModule, ends_bind, ends_get] at hwalk
    obtain ⟨_, _, hheader, _, _, hdefinition, _, _, hcode, _, _, hinner, _, _, ⟨rfl, rfl⟩,
      _, _, hlink, _, _, hpass, hcheck⟩ := hwalk
    have hafter := (((link_grows hlink).trans (passOnAll_grows hpass)).trans
      (checkMappings_grows hcheck)).toGrows
    exact ⟨_, _, _, _, ht.trans (record_grows hheader).toGrows, hdefinition,
      (((record_grows hcode).toGrows.trans (walkModules_grows hon hinner)).trans hafter).trans ht'⟩
  | single hm _ ih =>
    obtain ⟨t, _, t', ht, hwalk, ht'⟩ := State.grows_closed.of_mem hgrows hm h
    simp only [walkModule, ends_bind, ends_get] at hwalk
    obtain ⟨_, _, hheader, _, _, hdefinition, _, _, hcode, _, _, hinner, _, _, ⟨rfl, rfl⟩,
      _, _, hlink, _, _, hpass, hcheck⟩ := hwalk
    have hown := ((record_grows hheader).trans (record_grows hdefinition)).trans
      (record_grows hcode)
    have hafter := ((link_grows hlink).trans (passOnAll_grows hpass)).trans
      (checkMappings_grows hcheck)
    exact (ih hinner hmodule).grows (ht.trans hown.toGrows) (hafter.toGrows.trans ht')
  | framed hm _ ih =>
    obtain ⟨t, _, t', ht, hwalk, ht'⟩ := State.grows_closed.of_mem hgrows hm h
    simp only [walkModule, ends_bind] at hwalk
    obtain ⟨_, _, hheader, _, _, hdefinition, _, _, hcode, hinner⟩ := hwalk
    have hown := ((record_grows hheader).trans (record_grows hdefinition)).trans
      (record_grows hcode)
    exact (ih hinner hmodule).grows (ht.trans hown.toGrows) ht'

theorem walkPicture_records (hdrawn : Drawn p scope drawing) (h : (walkPicture p).Ends s u s') :
    Recorded p s scope (definition drawing) s' := by
  obtain ⟨_, _, _, hcode, hdefinition, hheader, hmodules⟩ := walkPicture_ends h
  have hbefore := (record_grows hcode).toGrows
  have hafter := (record_grows hheader).toGrows
  cases hdrawn with
  | picture =>
    exact ⟨_, _, _, _, hbefore, hdefinition,
      hafter.trans (walkModules_grows (walkType_grows _) hmodules)⟩
  | module hm =>
    exact (walkModules_records (walkType_grows _) hm hmodules).grows
      ((hbefore.trans (record_grows hdefinition).toGrows).trans hafter) (.refl _)

theorem reportTypes_keeps {types : List TypeDef} (h : (reportTypes p types).Ends s u s') :
    s.marks.Grows s'.marks := by
  induction types generalizing s with
  | nil =>
    obtain ⟨-, rfl⟩ := ends_pure.mp h
    exact .refl _
  | cons type rest ih =>
    rcases reportTypes_cons.mp h with ⟨-, h⟩ | ⟨-, _, _, hwalk, hreport, hrest⟩
    · exact ih h
    · have hkept := (walkType_grows _ hwalk).marks
      rw [← (reportDeclarations_keeps hreport).1] at hkept
      exact hkept.trans (ih hrest)

theorem analysis_marks_drawn {marks : Marks} {issues : List Issue}
    (h : (analysis p).Ends (State.start marks) issues s') (hdrawn : Drawn p scope drawing)
    (ho : .ok o ∈ definition drawing) (hv : resolve p scope o = some v)
    (hid : v.id < marks.entries.size) : s'.marks.Has v o.access := by
  simp only [analysis, ends_bind, ends_modify, ends_get, ends_pure] at h
  obtain ⟨_, _, rfl, _, s₁, hwalk, _, s₂, hreplay, _, s₃, hrepeated, _, s₄, hlocals, _, s₅,
    hmodules, _, s₆, htypes, _, _, ⟨rfl, rfl⟩, -, rfl⟩ := h
  have hmarked := (walkPicture_records hdrawn hwalk).marked ho hv hid
  have hreports := (replayAliases_grows hreplay).trans (reportRepeatedTypes_grows hrepeated)
  refine (reportTypes_keeps htypes).keeps v _ ?_
  rw [(reportDeclarations_keeps hmodules).1, (reportDeclarations_keeps hlocals).1]
  exact hreports.marks.keeps v _ hmarked

end Walks

theorem Drawn.hasBody {p : Picture} {scope : List Variable} {drawing : Value}
    (h : Drawn p scope drawing) : ∃ body, p.HasBody body ∧ body.scope = scope := by
  cases h with
  | picture => exact ⟨p.body, .picture, rfl⟩
  | @module info inner hm => exact ⟨info.body inner, .module hm, rfl⟩

/-- `ConnectsTo node x`: the tail `InVar_` of an enabling part is a name, which is `x` in small
letters up to its first dot. -/
def ConnectsTo (node : Tree) (x : String) : Prop :=
  ∃ word state symbol name reference,
    node = .node "enable" [.leaf word, .leaf state,
      .node "invar" [.leaf symbol, .node "connected_variable" [name]]] ∧
    symbol.kind = "INVAR_PREFIX" ∧ valueOf name = .ok reference ∧ HasBase reference x

mutual

/-- The parts of a tree that has a value have values. -/
theorem valueOf_enabling : ∀ {tree : Tree} {v : Value}, valueOf tree = .ok v →
    ∀ {node : Tree}, node ∈ enablings tree → ∃ w, valueOf node = .ok w
  | .leaf _, _, _, _, hnode => by simp at hnode
  | .node label children, v, hv, node, hnode => by
    obtain ⟨items, hitems, -⟩ := valueOf_node_eq_ok.mp hv
    rw [enablings] at hnode
    split at hnode
    · obtain rfl := List.mem_singleton.mp hnode
      exact ⟨v, hv⟩
    · split at hnode
      · simp at hnode
      · exact valuesOf_enabling hitems hnode

theorem valuesOf_enabling : ∀ {trees : List Tree} {items : List Value},
    valuesOf trees = .ok items →
    ∀ {node : Tree}, node ∈ enablingsIn trees → ∃ w, valueOf node = .ok w
  | [], _, _, _, hnode => by simp at hnode
  | tree :: rest, _, hitems, node, hnode => by
    obtain ⟨v, others, hv, hothers, -⟩ := valuesOf_cons_eq_ok.mp hitems
    rw [enablingsIn_cons, List.mem_append] at hnode
    rcases hnode with hnode | hnode
    · exact valueOf_enabling hv hnode
    · exact valuesOf_enabling hothers hnode

end

theorem lastOrNull_concat {p : Value → Bool} {v : Value} (items : List Value) (h : p v = true) :
    Build.lastOrNull p (items ++ [v]) = v := by
  rw [Build.lastOrNull, List.filter_append, List.filter_cons_of_pos h, List.filter_nil,
    List.getLast?_concat, Option.getD_some]

theorem HasBase.dict {v : Value} {x : String} (h : HasBase v x) :
    ∃ keys values, v = .dict keys values := by
  obtain ⟨_, hname, -⟩ := h
  cases v with
  | dict keys values => exact ⟨keys, values, rfl⟩
  | _ => simp [Value.get?] at hname

/-- A variable connected to an enabling part is found there. -/
theorem ConnectsTo.enabled {node tree : Tree} {x : String} (h : ConnectsTo node x)
    (hnode : node ∈ enablings tree) {v : Value} (hv : valueOf tree = .ok v) :
    Enabled tree (.ok ⟨x, .read, .scopeThenProgram⟩) := by
  obtain ⟨word, state, symbol, name, reference, rfl, hsymbol, hname, hx⟩ := h
  obtain ⟨w, hw⟩ := valueOf_enabling hv hnode
  refine ⟨_, hnode, w, hw, ?_⟩
  obtain ⟨keys, values, rfl⟩ := hx.dict
  obtain ⟨items, hitems, hbuilt⟩ := valueOf_node_eq_ok.mp hw
  obtain ⟨first, _, -, hrest, rfl⟩ := valuesOf_cons_eq_ok.mp hitems
  obtain ⟨second, _, -, hlast, rfl⟩ := valuesOf_cons_eq_ok.mp hrest
  have hvariable : valueOf (.node "connected_variable" [name]) = .ok (.dict keys values) :=
    valueOf_node_eq_ok.mpr ⟨_, valuesOf_cons_eq_ok.mpr ⟨_, [], hname, rfl, rfl⟩, rfl⟩
  have htoken : valueOf (.leaf symbol) = .ok (.token "INVAR_PREFIX" symbol.text) := by
    rw [valueOf, hsymbol]
    rfl
  have hinvar : valueOf (.node "invar" [.leaf symbol, .node "connected_variable" [name]]) =
      .ok (.dict keys values) := by
    refine valueOf_node_eq_ok.mpr ⟨_, valuesOf_cons_eq_ok.mpr ⟨_, _, htoken,
      valuesOf_cons_eq_ok.mpr ⟨_, [], hvariable, rfl, rfl⟩, rfl⟩, rfl⟩
  rw [valuesOf, hinvar] at hlast
  cases hlast
  cases hbuilt
  have htail : (Build.enabling [first, second, .dict keys values]).getOrNull "tail" =
      .dict keys values := by
    exact lastOrNull_concat [first, second] rfl
  have hread : tail (.dict keys values) = accesses [.read] .scopeThenProgram (.dict keys values) :=
    if_pos (by obtain ⟨_, hname, -⟩ := hx; simp [isReference, Value.hasKey, hname])
  rw [htail, hread, accesses, hx.baseName]
  simp

/-- Of the variables connected to the properties of a picture just those of its enabling parts are
read: besides the variables shown in its texts, nothing else is found in it, and what is found
there is marked if it is a variable of the module. -/
theorem connections_read_if_enabling {value : Value} {start marks : Marks} {p : Picture}
    (hread : value.toPicture.run start = .ok (p, marks)) {issues : List Issue}
    (hrun : (analyze p marks).1 = .ok issues) {scope : List Variable} {drawing : Value}
    (hdrawn : Drawn p scope drawing) {tree : Tree} (htree : IsOf "moduledef" tree)
    (hvalue : valueOf tree = .ok drawing) :
    (∀ finding, finding ∈ definition drawing ↔
      finding ∈ shownBy drawing ∨ Enabled tree finding) ∧
    (∀ o v, .ok o ∈ definition drawing → resolve p scope o = some v → v ∈ scope →
      (analyze p marks).2.Has v o.access) ∧
    ∀ node ∈ enablings tree, ∀ x v, ConnectsTo node x → Variable.find? scope x = some v →
      (analyze p marks).2.Has v .read := by
  have hfound := definition_findings htree hvalue
  have hmarked : ∀ o v, .ok o ∈ definition drawing → resolve p scope o = some v → v ∈ scope →
      (analyze p marks).2.Has v o.access := by
    intro o v ho hresolve hv
    obtain ⟨body, hbody, rfl⟩ := hdrawn.hasBody
    have hid := (Value.toPicture_declares value hread).id_lt (hbody.scope_subset hv)
    obtain ⟨s', hends, hmarks⟩ := analyze_ends hrun
    rw [hmarks]
    exact analysis_marks_drawn hends hdrawn ho hresolve hid
  refine ⟨hfound, hmarked, fun node hnode x v hx hv => ?_⟩
  have henabled := hx.enabled hnode hvalue
  refine hmarked _ v ((hfound _).mpr (.inr henabled)) ?_ ?_
  · simp [resolve, hv]
  · exact List.mem_reverse.mp (List.mem_of_find?_eq_some hv)

/-! A picture with one object, which is enabled by the variable `On` and filled with the colour that
the variable `Shade` has. -/

def tailTree (name : String) : Tree :=
  .node "invar" [word "INVAR_PREFIX" "InVar_", .node "connected_variable" [variableTree name]]

def cornerTree : Tree :=
  .node "coordinates" [word "REAL" "0.0", word "REAL" "1.0"]

def enablingTree : Tree :=
  .node "enable" [word "ENABLE_PREFIX" "Enable_", word "BOOL" "True", tailTree "On"]

def colourTree : Tree :=
  .node "color_properties" [.node "fill_colour" [word "FILLCOLOUR" "FillColour",
    .node "colour_assignments" [.node "assign_colour" [word "COLOUR0" "Colour0",
      word "SIGNED_INT" "1", tailTree "Shade"]]]]

def shadedTree : Tree :=
  .node "moduledef" [word "MODULEDEF" "ModuleDef",
    .node "clippingbounds" [word "CLIPPINGBOUNDS" "ClippingBounds",
      .node "origo_size_pair" [cornerTree, cornerTree]],
    .node "moduledef_opts" [],
    .node "graph_objects" [word "GRAPHOBJECTS" "GraphObjects",
      .node "graph_object" [.node "composite_object" [word "COMPOSITEOBJECT" "CompositeObject",
        .node "common_properties" [enablingTree, colourTree]]]]]

theorem isOf_shadedTree : IsOf "moduledef" shadedTree :=
  Syntax.isOf_of_behind 40 (by decide +kernel)

def cornerValue : Value :=
  .tuple [.real (.zero false), .real (.finite false 4503599627370496 (-52))]

def shadedDrawing : Value :=
  drawingOf (.tuple [cornerValue, cornerValue])
    [.element .graphObject [.text "CompositeObject", .dict [.text "tails"]
      [.list [reference "On"]]]] []

def shadedValue : Value :=
  .element .basePicture [headerNamed "Plant", .text "BasePicture", .null, .list [], .list [],
    .list [integerNamed "On", integerNamed "Shade"], .list [], shadedDrawing, .null, .null, .null,
    .null]

def shadedPicture : Picture :=
  ⟨plainHeader "Plant", .text "BasePicture", .null, [], [],
    [integerVariable 0 "On", integerVariable 1 "Shade"], [], shadedDrawing, .null, .null, .null, []⟩

def shadedMarks : Marks :=
  ⟨#[{}, {}]⟩

theorem shaded_read : shadedValue.toPicture.run {} = .ok (shadedPicture, shadedMarks) := by
  rfl

theorem valueOf_shadedTree : valueOf shadedTree = .ok shadedDrawing := by
  rfl

theorem shaded_returns : ∃ issues, (analyze shadedPicture shadedMarks).1 = .ok issues := by
  have hends : (analyze shadedPicture shadedMarks).1.toOption.isSome = true := by
    decide
  cases hrun : (analyze shadedPicture shadedMarks).1 with
  | error problem =>
    rw [hrun] at hends
    cases hends
  | ok issues => exact ⟨issues, rfl⟩

theorem shaded_on_read :
    IsOf "moduledef" shadedTree ∧ valueOf shadedTree = .ok shadedDrawing ∧
      (analyze shadedPicture shadedMarks).2.Has (integerVariable 0 "On") .read := by
  obtain ⟨issues, hrun⟩ := shaded_returns
  have hparts := connections_read_if_enabling shaded_read hrun .picture isOf_shadedTree
    valueOf_shadedTree
  refine ⟨isOf_shadedTree, valueOf_shadedTree, hparts.2.2 enablingTree ?_ "on" _ ?_ ?_⟩
  · exact List.mem_singleton_self _
  · exact ⟨_, _, _, _, reference "On", rfl, rfl, rfl, "On", rfl, by decide⟩
  · have hon : (integerVariable 0 "On").key = "on" := by decide
    have hshade : (integerVariable 1 "Shade").key ≠ "on" := by decide
    simp [Variable.find?, shadedPicture, hon, hshade]

mutual

/-- A tree and all trees below it. -/
def subtrees : Tree → List Tree
  | .leaf lexeme => [.leaf lexeme]
  | .node label children => .node label children :: subtreesIn children

def subtreesIn : List Tree → List Tree
  | [] => []
  | tree :: rest => subtrees tree ++ subtreesIn rest

end

/-- A variable to which a colour is connected is not read, and it is reported as unused. -/
theorem shaded_colour_not_read :
    IsOf "moduledef" shadedTree ∧ valueOf shadedTree = .ok shadedPicture.definition ∧
      tailTree "Shade" ∈ subtrees shadedTree ∧ valueOf (tailTree "Shade") = .ok (reference "Shade") ∧
      Names (reference "Shade") (integerVariable 1 "Shade").key ∧
      (∃ issues, (analyze shadedPicture shadedMarks).1 = .ok issues ∧
        ∃ issue ∈ issues, issue.kind = .unused ∧ issue.subject.id = 1) ∧
      ¬ (analyze shadedPicture shadedMarks).2.Has (integerVariable 1 "Shade") .read := by
  have hreported : (analyze shadedPicture shadedMarks).1.toOption.any (fun issues =>
      issues.any fun issue => issue.kind == .unused && issue.subject.id == 1) = true := by
    decide
  refine ⟨isOf_shadedTree, valueOf_shadedTree, ?_, rfl, names_reference (.inr ?_) rfl, ?_, ?_⟩
  · simp [shadedTree, colourTree, tailTree, subtrees, subtreesIn]
  · decide
  · obtain ⟨issues, hrun⟩ := shaded_returns
    rw [hrun] at hreported
    exact ⟨issues, hrun, by simpa [Except.toOption] using hreported⟩
  · have hunread : ((analyze shadedPicture shadedMarks).2.get (integerVariable 1 "Shade")).read =
        false := by
      decide
    simp [Marks.Has, Usage.Has, hunread]

end SattLine.Usage
