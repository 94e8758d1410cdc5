import SattLine.Proofs.Usage.Linked

/-!
The report on local variables. What the uses of a variable call for is said once, for all places
where a variable can be declared. Main statement: of the picture's own variables and those of its
module types, each has exactly the issue that it calls for; a variable of a module has it unless it
is written and never read, and a variable of a module inside a module type has none.
-/

namespace SattLine.Usage

open List
open Walk

/-- The kinds of issues that the uses of a variable decide. -/
def IssueKind.isOfUse : IssueKind → Bool
  | .unused | .readOnly | .neverRead => true
  | .stringMismatch => false
  | .repeatedType => false

/-- The issue that a variable with these uses calls for. -/
def verdict (usage : Usage) (v : Variable) : Option IssueKind :=
  match usage.read, usage.written with
  | false, false => some .unused
  | true, false => if !v.const.holds && v.type.isSimple then some .readOnly else none
  | false, true => some .neverRead
  | true, true => none

/-- The issues of a report that the uses of variables decide. -/
def useIssues (issues : List Issue) : List Issue :=
  issues.filter fun issue => issue.kind.isOfUse

/-- The kinds of all issues on the uses of a variable, in the order of the report. -/
def kindsFor (v : Variable) (issues : List Issue) : List IssueKind :=
  ((useIssues issues).filter fun issue => issue.subject.id == v.id).map Issue.kind

section Kinds

variable {v : Variable} {marks : Marks} {unread : Bool} {d : Declaration} {ds : List Declaration}

theorem useIssues_append (first rest : List Issue) :
    useIssues (first ++ rest) = useIssues first ++ useIssues rest :=
  filter_append first rest

theorem kindsFor_append (first rest : List Issue) :
    kindsFor v (first ++ rest) = kindsFor v first ++ kindsFor v rest := by
  simp [kindsFor, useIssues_append]

theorem kindsFor_eq_nil {issues : List Issue}
    (h : ∀ issue ∈ issues, issue.subject.id ≠ v.id) : kindsFor v issues = [] := by
  simp only [kindsFor, map_eq_nil_iff, filter_eq_nil_iff, beq_iff_eq]
  exact fun issue hissue => h issue (mem_of_mem_filter hissue)

theorem issueOf_subject {issue : Issue} (h : issueOf marks unread d = some issue) :
    issue.subject = d.declared := by
  simp only [issueOf] at h
  split_ifs at h <;> cases h <;> rfl

theorem issueOf_isOfUse {issue : Issue} (h : issueOf marks unread d = some issue) :
    issue.kind.isOfUse = true := by
  simp only [issueOf] at h
  split_ifs at h <;> cases h <;> rfl

theorem useIssues_declared (marks : Marks) (unread : Bool) (ds : List Declaration) :
    useIssues (ds.filterMap (issueOf marks unread)) = ds.filterMap (issueOf marks unread) := by
  refine filter_eq_self.mpr fun issue hissue => ?_
  obtain ⟨d, -, hof⟩ := mem_filterMap.mp hissue
  exact issueOf_isOfUse hof

/-- A local variable is reported with the issue that it calls for, but only where `unread` holds
when it is never read. -/
theorem issueOf_local (hrole : d.role = .localVariable) :
    (issueOf marks unread d).map Issue.kind =
      if unread then verdict (marks.get d.declared) d.declared
      else (verdict (marks.get d.declared) d.declared).filter (· != .neverRead) := by
  cases hread : (marks.get d.declared).read <;> cases hwritten : (marks.get d.declared).written <;>
    simp only [issueOf, verdict, hrole, hread, hwritten, Usage.isUnused, Usage.isReadOnly,
      Usage.isWriteOnly, couldBeConst]
  case false.false => cases unread <;> rfl
  case false.true => cases unread <;> rfl
  case true.false =>
    cases d.declared.const.holds <;> cases d.declared.type.isSimple <;> cases unread <;> rfl
  case true.true => cases unread <;> rfl

/-- The report on declarations says nothing of a variable that is not among them. -/
theorem kindsFor_others (marks : Marks) (unread : Bool) (h : ∀ d ∈ ds, d.declared.id ≠ v.id) :
    kindsFor v (ds.filterMap (issueOf marks unread)) = [] := by
  refine kindsFor_eq_nil fun issue hissue => ?_
  obtain ⟨d, hd, hof⟩ := mem_filterMap.mp hissue
  rw [issueOf_subject hof]
  exact h d hd

theorem kindsFor_declared (marks : Marks) (unread : Bool)
    (hids : (ds.map fun d => d.declared.id).Nodup) (hd : d ∈ ds) :
    kindsFor d.declared (ds.filterMap (issueOf marks unread)) =
      ((issueOf marks unread d).map Issue.kind).toList := by
  obtain ⟨before, after, rfl⟩ := append_of_mem hd
  rw [map_append, map_cons, nodup_middle, nodup_cons] at hids
  have hothers : ∀ other ∈ before ++ after, other.declared.id ≠ d.declared.id := by
    intro other hother hid
    refine hids.1 ?_
    rw [← map_append, ← hid]
    exact mem_map_of_mem hother
  have hbefore := kindsFor_others marks unread
    fun other ho => hothers other (mem_append_left _ ho)
  have hafter := kindsFor_others marks unread
    fun other ho => hothers other (mem_append_right _ ho)
  rw [filterMap_append, filterMap_cons, kindsFor_append, hbefore, nil_append]
  cases hof : issueOf marks unread d with
  | none => exact hafter
  | some issue =>
    have hself : kindsFor d.declared [issue] = [issue.kind] := by
      simp [kindsFor, useIssues, issueOf_subject hof, issueOf_isOfUse hof]
    change kindsFor d.declared ([issue] ++ after.filterMap (issueOf marks unread)) = [issue.kind]
    rw [kindsFor_append, hself, hafter, append_nil]

end Kinds

/-- A walk reports nothing that the uses of variables decide. -/
def SilentOnUse (s s' : State) : Prop :=
  useIssues s'.issues = useIssues s.issues

theorem silentOnUse_closed : Closed (fun _ => True) SilentOnUse where
  refl := fun _ => rfl
  trans := fun hab hbc => hbc.trans hab
  note _ _ _ _ := rfl
  report s target source path := by
    rw [SilentOnUse, useIssues_append]
    exact append_nil _
  link _ _ _ _ := rfl

theorem silentOnUse_remember (s : State) (entries : List (String × ParameterUse)) :
    SilentOnUse s { s with typeUse := entries } :=
  rfl

theorem SilentOnUse.kindsFor {s s' : State} (h : SilentOnUse s s') (v : Variable) :
    kindsFor v s'.issues = kindsFor v s.issues := by
  rw [Usage.kindsFor, h, Usage.kindsFor]

section Stages

variable {p : Picture} {s s' : State} {u : Unit} {v : Variable}

/-- The analysis up to the module types: the picture is walked, the uses of sources are passed on,
and the picture and the modules below it are reported. -/
def reportModules (p : Picture) : Walk Unit := do
  modify fun s => { s with issues := [] }
  walkPicture p
  replayAliases
  reportRepeatedTypes p
  reportDeclarations true (Declaration.localsAt [p.header.name] p.locals)
  reportDeclarations false (Module.declarationsOf [p.header.name] p.submodules)

theorem analysis_eq (p : Picture) :
    analysis p = do
      reportModules p
      reportTypes p p.types
      return (← get).issues := by
  simp [analysis, reportModules]

/-- The state in which a walk leaves an analysis that has not begun. -/
def stateAfter (w : Walk Unit) (marks : Marks) : State :=
  (w.run.run (State.start marks)).2

/-- The marks by which the variables of a module type are reported: those after the walk over the
type, when the modules and the types before it have been reported. -/
def seenAt (p : Picture) (marks : Marks) (before : List TypeDef) (type : TypeDef) : Marks :=
  let walk : Walk Unit := do
    reportModules p
    reportTypes p before
    walkType p p.types.length type [p.header.name, type.label]
  (stateAfter walk marks).marks

theorem reportTypes_append {before after : List TypeDef} :
    (reportTypes p (before ++ after)).Ends s u s' ↔
      ∃ t, (reportTypes p before).Ends s () t ∧ (reportTypes p after).Ends t u s' := by
  induction before generalizing s with
  | nil => simp [reportTypes]
  | cons type rest ih =>
    simp only [cons_append, reportTypes_cons, ih]
    constructor
    · rintro (⟨hown, t, hbefore, hafter⟩ | ⟨hown, t₁, t₂, hwalk, hreport, t, hbefore, hafter⟩)
      · exact ⟨t, .inl ⟨hown, hbefore⟩, hafter⟩
      · exact ⟨t, .inr ⟨hown, t₁, t₂, hwalk, hreport, hbefore⟩, hafter⟩
    · rintro ⟨t, ⟨hown, hbefore⟩ | ⟨hown, t₁, t₂, hwalk, hreport, hbefore⟩, hafter⟩
      · exact .inl ⟨hown, t, hbefore, hafter⟩
      · exact .inr ⟨hown, t₁, t₂, hwalk, hreport, t, hbefore, hafter⟩

variable {marks : Marks} {unread : Bool} {ds : List Declaration}

theorem stateAfter_eq {w : Walk Unit} (h : w.Ends (State.start marks) u s') :
    stateAfter w marks = s' :=
  congrArg Prod.snd h

/-- An analysis that returns has reported the modules and then the module types. -/
theorem analyze_stages {issues : List Issue} (h : (analyze p marks).1 = .ok issues) :
    ∃ s s', (reportModules p).Ends (State.start marks) () s ∧
      (reportTypes p p.types).Ends s () s' ∧ s'.issues = issues ∧ (analyze p marks).2 = s'.marks := by
  obtain ⟨s', hends, hmarks⟩ := analyze_ends h
  rw [analysis_eq] at hends
  simp only [ends_bind, ends_get, ends_pure] at hends
  obtain ⟨_, s, hmodules, _, _, htypes, _, _, ⟨rfl, rfl⟩, rfl, rfl⟩ := hends
  exact ⟨s, s', hmodules, htypes, rfl, hmarks⟩

theorem walkType_silentOnUse {depth : Nat} {type : TypeDef} {path : Path}
    (h : (walkType p depth type path).Ends s u s') : SilentOnUse s s' :=
  silentOnUse_closed.of_walkType silentOnUse_remember (fun _ _ _ _ => trivial) depth
    (fun _ _ => trivial) h

theorem reportDeclarations_issues (h : (reportDeclarations unread ds).Ends s u s') :
    useIssues s'.issues = useIssues s.issues ++ ds.filterMap (issueOf s.marks unread) := by
  rw [reportDeclarations, ends_modify] at h
  subst h
  rw [useIssues_append, useIssues_declared]

theorem useIssues_repeatedTypes (ds : List Declaration) : useIssues (repeatedTypes p ds) = [] := by
  refine filter_eq_nil_iff.mpr fun issue hissue => ?_
  rw [repeatedTypes_kind hissue]
  exact Bool.false_ne_true

/-- Up to the report on declarations nothing is said on the uses of variables. -/
theorem silentOnUse_before_report {s₁ s₂ s₃ : State} {u₁ u₂ u₃ : Unit}
    (hwalk : (walkPicture p).Ends s u₁ s₁) (hreplay : replayAliases.Ends s₁ u₂ s₂)
    (hrepeated : (reportRepeatedTypes p).Ends s₂ u₃ s₃) : SilentOnUse s s₃ := by
  have hwalked : SilentOnUse s s₁ :=
    silentOnUse_closed.of_walkPicture silentOnUse_remember (fun _ _ => trivial) hwalk
  rw [replayAliases, ends_modify] at hreplay
  obtain ⟨ds, rfl⟩ := reportRepeatedTypes_ends hrepeated
  subst hreplay
  rw [SilentOnUse, useIssues_append, useIssues_repeatedTypes, append_nil]
  exact hwalked

/-- The picture and the modules below it are reported by the marks after the links. -/
theorem reportModules_issues (h : (reportModules p).Ends (State.start marks) u s') :
    s'.marks = linked p marks ∧ useIssues s'.issues =
      (Declaration.localsAt [p.header.name] p.locals).filterMap (issueOf (linked p marks) true) ++
      (Module.declarationsOf [p.header.name] p.submodules).filterMap
        (issueOf (linked p marks) false) := by
  simp only [reportModules, ends_bind, ends_modify] at h
  obtain ⟨_, _, rfl, _, s₁, hwalk, _, s₂, hreplay, _, s₃, hrepeated, _, s₄, hlocals, hmodules⟩ := h
  have hbefore : useIssues s₃.issues = [] := silentOnUse_before_report hwalk hreplay hrepeated
  have hlinked : s₃.marks = linked p marks := by
    have hwalked : walked p marks = s₁ := congrArg Prod.snd hwalk
    rw [replayAliases, ends_modify] at hreplay
    obtain ⟨ds, rfl⟩ := reportRepeatedTypes_ends hrepeated
    rw [hreplay, linked, hwalked]
  have hmarks := (reportDeclarations_keeps hlocals).1
  refine ⟨((reportDeclarations_keeps hmodules).1.trans hmarks).trans hlinked, ?_⟩
  rw [reportDeclarations_issues hmodules, reportDeclarations_issues hlocals, hbefore, hmarks,
    hlinked, nil_append]

theorem reportModules_kinds (h : (reportModules p).Ends (State.start marks) u s') (v : Variable) :
    kindsFor v s'.issues =
      kindsFor v ((Declaration.localsAt [p.header.name] p.locals).filterMap
        (issueOf (linked p marks) true)) ++
      kindsFor v ((Module.declarationsOf [p.header.name] p.submodules).filterMap
        (issueOf (linked p marks) false)) := by
  rw [kindsFor, (reportModules_issues h).2]
  simp only [kindsFor, useIssues_declared, filter_append, map_append]

theorem reportDeclarations_kinds (h : (reportDeclarations unread ds).Ends s u s') (v : Variable) :
    kindsFor v s'.issues =
      kindsFor v s.issues ++ kindsFor v (ds.filterMap (issueOf s.marks unread)) := by
  rw [kindsFor, reportDeclarations_issues h]
  simp only [kindsFor, useIssues_declared, filter_append, map_append]

theorem ownDeclarations_declared (type : TypeDef) (path : Path) :
    (type.ownDeclarations path).map Declaration.declared = type.scope := by
  simp [TypeDef.ownDeclarations, Declaration.parametersAt, Declaration.localsAt, TypeDef.scope,
    Function.comp_def]

/-- Reporting module types says nothing of a variable that none of them declares. -/
theorem reportTypes_others {types : List TypeDef} (h : (reportTypes p types).Ends s u s')
    (hv : ∀ type ∈ types, ∀ w ∈ type.scope, w.id ≠ v.id) :
    kindsFor v s'.issues = kindsFor v s.issues := by
  induction types generalizing s with
  | nil =>
    obtain ⟨-, rfl⟩ := ends_pure.mp h
    rfl
  | cons type rest ih =>
    have hrest := fun other ho => hv other (mem_cons_of_mem type ho)
    rcases reportTypes_cons.mp h with ⟨-, h⟩ | ⟨-, t, t', hwalk, hreport, h⟩
    · exact ih h hrest
    · have hnone : kindsFor v ((type.ownDeclarations [p.header.name]).filterMap
          (issueOf t.marks true)) = [] := by
        refine kindsFor_others _ _ fun d hd => hv type mem_cons_self d.declared ?_
        rw [← ownDeclarations_declared type [p.header.name]]
        exact mem_map_of_mem hd
      rw [ih h hrest, reportDeclarations_kinds hreport, hnone, append_nil,
        (walkType_silentOnUse hwalk).kindsFor]

end Stages

section Numbers

variable {p : Picture} (hids : (p.allVariables.map Variable.id).Nodup)

include hids

/-- The numbers of the picture's own variables and those of its modules are different. -/
theorem nodup_ids_outside :
    ((p.locals ++ Module.allVariablesOf p.submodules).map Variable.id).Nodup := by
  rw [Picture.allVariables, append_assoc, map_append, nodup_append] at hids
  exact hids.2.1

/-- A variable of a module type has another number than every variable outside that type, and
than every other one in it. -/
theorem ids_apart {before after : List TypeDef} {type : TypeDef}
    (hsplit : p.types = before ++ type :: after) :
    (type.allVariables.map Variable.id).Nodup ∧ ∀ v ∈ type.allVariables,
      (∀ w ∈ p.locals ++ Module.allVariablesOf p.submodules, w.id ≠ v.id) ∧
      ∀ other ∈ before ++ after, ∀ w ∈ other.allVariables, w.id ≠ v.id := by
  have hperm : p.allVariables.Perm (type.allVariables ++
      ((before ++ after).flatMap TypeDef.allVariables ++
        (p.locals ++ Module.allVariablesOf p.submodules))) := by
    rw [Picture.allVariables, hsplit]
    simp only [flatMap_append, flatMap_cons, append_assoc]
    exact perm_append_comm_assoc _ _ _
  have happart := (hperm.map Variable.id).nodup hids
  rw [map_append, nodup_append] at happart
  obtain ⟨hown, -, happart⟩ := happart
  refine ⟨hown, fun v hv => ⟨fun w hw => ?_, fun other ho w hw => ?_⟩⟩
  · refine (happart _ (mem_map_of_mem hv) _ (mem_map_of_mem ?_)).symm
    exact mem_append_right _ hw
  · refine (happart _ (mem_map_of_mem hv) _ (mem_map_of_mem ?_)).symm
    exact mem_append_left _ (mem_flatMap.mpr ⟨other, ho, hw⟩)

end Numbers

section Classification

variable {p : Picture} {marks : Marks} {issues : List Issue} {s : State} {v : Variable}

variable {path : Path} {modules inner : List Module} {info : SingleInfo} {s' : State}

theorem mem_localsAt {vs : List Variable} (hv : v ∈ vs) :
    ⟨path, .localVariable, v⟩ ∈ Declaration.localsAt path vs :=
  mem_map_of_mem hv

theorem mem_declarationsOf_of_mem {m : Module} (hm : m ∈ modules) {d : Declaration}
    (hd : d ∈ m.declarations path) : d ∈ Module.declarationsOf path modules := by
  induction modules with
  | nil => simp at hm
  | cons head tail ih =>
    rw [Module.declarationsOf]
    rcases mem_cons.mp hm with rfl | hm
    · exact mem_append_left _ hd
    · exact mem_append_right _ (ih hm)

/-- The local variables of a module stand among the declarations of the modules around it. -/
theorem exists_mem_declarationsOf (h : Module.Inside modules (.single info inner))
    (hv : v ∈ info.locals) (path : Path) :
    ∃ d ∈ Module.declarationsOf path modules, d.role = .localVariable ∧ d.declared = v := by
  generalize hm : Module.single info inner = m at h
  induction h generalizing path with
  | here hmem =>
    subst hm
    refine ⟨⟨path ++ [info.header.name], .localVariable, v⟩, mem_declarationsOf_of_mem hmem ?_,
      rfl, rfl⟩
    rw [Module.declarations]
    exact mem_append_left _ (mem_append_right _ (mem_localsAt hv))
  | @single _ around _ _ hs _ ih =>
    obtain ⟨d, hd, hlocal⟩ := ih (path ++ [around.header.name]) hm
    refine ⟨d, mem_declarationsOf_of_mem hs ?_, hlocal⟩
    rw [Module.declarations]
    exact mem_append_right _ hd
  | @framed _ around _ _ hf _ ih =>
    obtain ⟨d, hd, hlocal⟩ := ih (path ++ [around.header.name]) hm
    refine ⟨d, mem_declarationsOf_of_mem hf ?_, hlocal⟩
    rw [Module.declarations]
    exact hd

/-- Nothing outside the module types is reported on a variable that is declared in one. -/
theorem reportModules_inside (h : (reportModules p).Ends (State.start marks) () s)
    (hv : ∀ w ∈ p.locals ++ Module.allVariablesOf p.submodules, w.id ≠ v.id) :
    kindsFor v s.issues = [] := by
  have hlocals : ∀ d ∈ Declaration.localsAt [p.header.name] p.locals, d.declared.id ≠ v.id := by
    intro d hd
    obtain ⟨w, hw, rfl⟩ := mem_map.mp hd
    exact hv w (mem_append_left _ hw)
  have hmodules : ∀ d ∈ Module.declarationsOf [p.header.name] p.submodules,
      d.declared.id ≠ v.id := by
    intro d hd
    refine hv d.declared (mem_append_right _ ?_)
    rw [← Module.declarationsOf_declared [p.header.name]]
    exact mem_map_of_mem hd
  rw [reportModules_kinds h, kindsFor_others _ _ hlocals, kindsFor_others _ _ hmodules]
  rfl

section Numbered

variable (hids : (p.allVariables.map Variable.id).Nodup)

include hids

theorem reportModules_local (h : (reportModules p).Ends (State.start marks) () s)
    (hv : v ∈ p.locals) :
    kindsFor v s.issues = (verdict ((linked p marks).get v) v).toList := by
  have hnodup := nodup_ids_outside hids
  rw [map_append, nodup_append] at hnodup
  obtain ⟨hlocals, -, happart⟩ := hnodup
  have hmodules : ∀ d ∈ Module.declarationsOf [p.header.name] p.submodules,
      d.declared.id ≠ v.id := by
    intro d hd
    have hmem := mem_map_of_mem (f := Declaration.declared) hd
    rw [Module.declarationsOf_declared] at hmem
    exact (happart _ (mem_map_of_mem hv) _ (mem_map_of_mem hmem)).symm
  have hown : ((Declaration.localsAt [p.header.name] p.locals).map fun d =>
      d.declared.id).Nodup := by
    simpa [Declaration.localsAt, Function.comp_def] using hlocals
  have hkinds := kindsFor_declared (linked p marks) true hown (mem_localsAt hv)
  rw [issueOf_local rfl] at hkinds
  rw [reportModules_kinds h, kindsFor_others _ _ hmodules, append_nil]
  simpa using hkinds

theorem reportModules_module (h : (reportModules p).Ends (State.start marks) () s)
    (hm : Module.Inside p.submodules (.single info inner)) (hv : v ∈ info.locals) :
    kindsFor v s.issues =
      ((verdict ((linked p marks).get v) v).filter (· != .neverRead)).toList := by
  have hnodup := nodup_ids_outside hids
  rw [map_append, nodup_append] at hnodup
  obtain ⟨-, hmodules, happart⟩ := hnodup
  obtain ⟨d, hd, hrole, rfl⟩ := exists_mem_declarationsOf hm hv [p.header.name]
  have hmem := mem_map_of_mem (f := Declaration.declared) hd
  rw [Module.declarationsOf_declared] at hmem
  have hlocals : ∀ other ∈ Declaration.localsAt [p.header.name] p.locals,
      other.declared.id ≠ d.declared.id := by
    intro other hother
    obtain ⟨w, hw, rfl⟩ := mem_map.mp hother
    exact happart _ (mem_map_of_mem hw) _ (mem_map_of_mem hmem)
  have hown : ((Module.declarationsOf [p.header.name] p.submodules).map fun d =>
      d.declared.id).Nodup := by
    rw [← Module.declarationsOf_declared [p.header.name], map_map] at hmodules
    exact hmodules
  have hkinds := kindsFor_declared (linked p marks) false hown hd
  rw [issueOf_local hrole] at hkinds
  rw [reportModules_kinds h, kindsFor_others _ _ hlocals, nil_append]
  simpa using hkinds

theorem reportTypes_outside (h : (reportTypes p p.types).Ends s () s')
    (hv : v ∈ p.locals ++ Module.allVariablesOf p.submodules) :
    kindsFor v s'.issues = kindsFor v s.issues := by
  refine reportTypes_others h fun type ht w hw hid => ?_
  obtain ⟨before, after, hsplit⟩ := append_of_mem ht
  have hw' : w ∈ type.allVariables := mem_append_left _ hw
  exact ((ids_apart hids hsplit).2 w hw').1 v hv hid.symm

theorem reportTypes_local (hmodules : (reportModules p).Ends (State.start marks) () s)
    (htypes : (reportTypes p p.types).Ends s () s') {before after : List TypeDef} {type : TypeDef}
    (hsplit : p.types = before ++ type :: after) (hown : p.isOwnFile type.originFile = .ok true)
    (hv : v ∈ type.locals) :
    kindsFor v s'.issues = (verdict ((seenAt p marks before type).get v) v).toList := by
  have hmem : v ∈ type.allVariables := mem_append_left _ (mem_append_right _ hv)
  obtain ⟨hnodup, happart⟩ := ids_apart hids hsplit
  obtain ⟨houtside, hothers⟩ := happart v hmem
  have hscope : ∀ {other : TypeDef}, other ∈ before ++ after → ∀ w ∈ other.scope, w.id ≠ v.id :=
    fun ho w hw => hothers _ ho w (mem_append_left _ hw)
  rw [hsplit, reportTypes_append] at htypes
  obtain ⟨t, hbefore, htypes⟩ := htypes
  rcases reportTypes_cons.mp htypes with ⟨hother, -⟩ | ⟨-, t₁, t₂, hwalk, hreport, hafter⟩
  · rw [hown] at hother
    cases hother
  · have hseen : seenAt p marks before type = t₁.marks := by
      rw [seenAt, stateAfter_eq]
      simp only [ends_bind]
      exact ⟨(), s, hmodules, (), t, hbefore, hwalk⟩
    have hnone : kindsFor v t₁.issues = [] := by
      rw [(walkType_silentOnUse hwalk).kindsFor, reportTypes_others hbefore, reportModules_inside hmodules
        houtside]
      exact fun other ho => hscope (mem_append_left _ ho)
    have hids' : ((type.ownDeclarations [p.header.name]).map fun d => d.declared.id).Nodup := by
      have hnumbers := hnodup
      rw [TypeDef.allVariables, map_append, nodup_append] at hnumbers
      rw [← TypeDef.scope, ← ownDeclarations_declared type [p.header.name], map_map] at hnumbers
      exact hnumbers.1
    have hd : ⟨[p.header.name] ++ [type.label], .localVariable, v⟩ ∈
        type.ownDeclarations [p.header.name] :=
      mem_append_right _ (mem_localsAt hv)
    have hkinds := kindsFor_declared t₁.marks true hids' hd
    rw [issueOf_local rfl] at hkinds
    rw [reportTypes_others hafter fun other ho => hscope (mem_append_right _ ho),
      reportDeclarations_kinds hreport, hnone, nil_append, hseen]
    simpa using hkinds

end Numbered

/-- Each local variable is reported as its uses call for when its module is reported: exactly so
in the picture and in its own module types. In the modules below the picture those that are never
read are left out, and in the modules inside module types all. -/
theorem locals_classified {value : Value} {start : Marks}
    (hread : value.toPicture.run start = .ok (p, marks))
    (hrun : (analyze p marks).1 = .ok issues) :
    (∀ v ∈ p.locals, kindsFor v issues = (verdict ((linked p marks).get v) v).toList) ∧
    (∀ info inner, Module.Inside p.submodules (.single info inner) → ∀ v ∈ info.locals,
      kindsFor v issues =
        ((verdict ((linked p marks).get v) v).filter (· != .neverRead)).toList) ∧
    (∀ before type after, p.types = before ++ type :: after →
      p.isOwnFile type.originFile = .ok true → ∀ v ∈ type.locals,
        kindsFor v issues = (verdict ((seenAt p marks before type).get v) v).toList) ∧
    ∀ type ∈ p.types, ∀ info inner, Module.Inside type.submodules (.single info inner) →
      ∀ v ∈ info.locals, kindsFor v issues = [] := by
  have hids := (Value.toPicture_declares value hread).nodup
  obtain ⟨s, s', hmodules, htypes, rfl, -⟩ := analyze_stages hrun
  refine ⟨fun v hv => ?_, fun info inner hm v hv => ?_, fun before type after hsplit hown v hv => ?_,
    fun type ht info inner hm v hv => ?_⟩
  · rw [reportTypes_outside hids htypes (mem_append_left _ hv)]
    exact reportModules_local hids hmodules hv
  · have hmem := hm.scope_subset (mem_append_right _ hv)
    rw [reportTypes_outside hids htypes (mem_append_right _ hmem)]
    exact reportModules_module hids hmodules hm hv
  · exact reportTypes_local hids hmodules htypes hsplit hown hv
  · obtain ⟨before, after, hsplit⟩ := append_of_mem ht
    have hinner := hm.scope_subset (mem_append_right _ hv)
    obtain ⟨hnodup, happart⟩ := ids_apart hids hsplit
    obtain ⟨houtside, hothers⟩ := happart v (mem_append_right _ hinner)
    rw [reportTypes_others htypes fun other ho w hw => ?_, reportModules_inside hmodules houtside]
    rw [hsplit] at ho
    rcases mem_append.mp ho with ho | ho
    · exact hothers other (mem_append_left _ ho) w (mem_append_left _ hw)
    · rcases mem_cons.mp ho with rfl | ho
      · rw [TypeDef.allVariables, map_append, nodup_append] at hnodup
        exact hnodup.2.2 _ (mem_map_of_mem hw) _ (mem_map_of_mem hinner)
      · exact hothers other (mem_append_right _ ho) w (mem_append_left _ hw)

end Classification

/-! A picture with a local variable at each kind of place: `Tank` in the picture itself, `Shown` in
a module that writes it, `Speed` in a module type, and `Count` in a module inside that type. -/

/-- The code `Shown = 1`. -/
def writeShown : Value :=
  .element .moduleCode [.list [], .list [.element .equation [.text "Show", .null, .null,
    .list [.tuple [.text "assign", reference "Shown", .int 1]]]]]

def scatteredValue : Value :=
  .element .basePicture [headerNamed "Plant", .text "BasePicture", .null, .list [],
    .list [.element .typeDef [.text "Pump", .null, .list [], .list [integerNamed "Speed"],
      .list [.element .singleModule [headerNamed "Cell", .null, .null, .list [],
        .list [integerNamed "Count"], .list [], .null, .list []]],
      .null, .null, .list [], .null, .bool false, .null, .null]],
    .list [integerNamed "Tank"],
    .list [.element .singleModule [headerNamed "Unit", .null, .null, .list [],
      .list [integerNamed "Shown"], .list [], writeShown, .list []]],
    .null, .null, .null, .null, .null]

def cellModule : SingleInfo :=
  ⟨plainHeader "Cell", .null, .null, [], [integerVariable 1 "Count"], .null, [], []⟩

def pumpType : TypeDef :=
  ⟨"Pump", .null, [], [integerVariable 0 "Speed"], [.single cellModule []], .null, .null, [], .null,
    .bool false, .null, .null, []⟩

def showingModule : SingleInfo :=
  ⟨plainHeader "Unit", .null, .null, [], [integerVariable 3 "Shown"], writeShown, [], []⟩

def scatteredPicture : Picture :=
  ⟨plainHeader "Plant", .text "BasePicture", .null, [], [pumpType], [integerVariable 2 "Tank"],
    [.single showingModule []], .null, .null, .null, .null, []⟩

def scatteredMarks : Marks :=
  ⟨#[{}, {}, {}, {}]⟩

theorem scattered_read : scatteredValue.toPicture.run {} = .ok (scatteredPicture, scatteredMarks) := by
  rfl

theorem scattered_returns : ∃ issues, (analyze scatteredPicture scatteredMarks).1 = .ok issues := by
  have hends : (analyze scatteredPicture scatteredMarks).1.toOption.isSome = true := by
    decide
  cases hrun : (analyze scatteredPicture scatteredMarks).1 with
  | error problem =>
    rw [hrun] at hends
    cases hends
  | ok issues => exact ⟨issues, rfl⟩

theorem scattered_classified : ∃ issues, (analyze scatteredPicture scatteredMarks).1 = .ok issues ∧
    kindsFor (integerVariable 2 "Tank") issues = [.unused] ∧
    kindsFor (integerVariable 3 "Shown") issues = [] ∧
    kindsFor (integerVariable 0 "Speed") issues = [.unused] ∧
    kindsFor (integerVariable 1 "Count") issues = [] := by
  obtain ⟨issues, hrun⟩ := scattered_returns
  obtain ⟨hlocals, hmodules, htypes, hinner⟩ := locals_classified scattered_read hrun
  refine ⟨issues, hrun, ?_, ?_, ?_, ?_⟩
  · rw [hlocals _ (mem_singleton_self _)]
    decide
  · rw [hmodules showingModule [] (.here (mem_singleton_self _)) _ (mem_singleton_self _)]
    decide
  · rw [htypes [] pumpType [] rfl rfl _ (mem_singleton_self _)]
    decide
  · exact hinner pumpType (mem_singleton_self _) cellModule []
      (.here (mem_singleton_self _)) _ (mem_singleton_self _)

/-- `Shown` is written and never read, `Count` is not used at all, and there is no issue on them. -/
theorem shown_and_count_not_reported :
    ((linked scatteredPicture scatteredMarks).get (integerVariable 3 "Shown")).isWriteOnly = true ∧
      ((seenAt scatteredPicture scatteredMarks [] pumpType).get (integerVariable 1 "Count")).isUnused =
        true ∧
      ∃ issues, (analyze scatteredPicture scatteredMarks).1 = .ok issues ∧
        kindsFor (integerVariable 3 "Shown") issues = [] ∧
        kindsFor (integerVariable 1 "Count") issues = [] := by
  have hkinds : ((analyze scatteredPicture scatteredMarks).1.toOption.map fun issues =>
      kindsFor (integerVariable 3 "Shown") issues ++ kindsFor (integerVariable 1 "Count") issues) =
        some [] := by
    decide
  obtain ⟨issues, hrun⟩ := scattered_returns
  rw [hrun] at hkinds
  obtain ⟨hshown, hcount⟩ := append_eq_nil_iff.mp (Option.some.inj hkinds)
  exact ⟨by decide, by decide, issues, hrun, hshown, hcount⟩

end SattLine.Usage
