import SattLine.Proofs.Usage.Memo

/-!
No false report of unused variables. Main statement: after an analysis that returns, every variable
that the picture, a module below it or a module type of its own file uses in code or through a
chain of parameters is marked with that use, and no issue calls it unused, as long as no variable
has a dot in its name. One that has a dot is called unused although code reads it.
-/

namespace SattLine.Usage

open List
open Walk

section Reports

variable {p : Picture} {v : Variable} {s s' : State} {u : Unit} {access : Access}

/-- No issue calls the variable unused. -/
def Clear (v : Variable) (s : State) : Prop :=
  ∀ issue ∈ s.issues, issue.kind = .unused → issue.subject.id ≠ v.id

theorem Clear.grows (h : Clear v s) (hgrows : s.Grows s') : Clear v s' :=
  fun issue hi hkind => h issue (hgrows.issues issue hi hkind) hkind

variable {unread : Bool} {issue : Issue} {ds : List Declaration}

theorem issueOf_unused {marks : Marks} {d : Declaration} (h : issueOf marks unread d = some issue)
    (hkind : issue.kind = .unused) :
    issue.subject = d.declared ∧ (marks.get d.declared).isUnused = true := by
  by_cases hunused : (marks.get d.declared).isUnused = true
  · simp only [issueOf, hunused, ↓reduceIte] at h
    cases h
    exact ⟨rfl, hunused⟩
  · simp only [issueOf, hunused, Bool.false_eq_true, ↓reduceIte] at h
    split at h
    · cases h
    · split at h
      · cases h
        cases hkind
      · split at h
        · cases h
          cases hkind
        · cases h

/-- Declarations are reported without a word on a variable that is marked, or not among them. -/
theorem reportDeclarations_clear (h : (reportDeclarations unread ds).Ends s u s')
    (hclear : Clear v s) (hv : s.marks.Has v access ∨ ∀ d ∈ ds, d.declared.id ≠ v.id) :
    Clear v s' := by
  rw [reportDeclarations, ends_modify] at h
  subst h
  intro issue hi hkind
  rcases mem_append.mp hi with hold | hnew
  · exact hclear issue hold hkind
  · obtain ⟨d, hd, hissue⟩ := mem_filterMap.mp hnew
    obtain ⟨hsubject, hunused⟩ := issueOf_unused hissue hkind
    rw [hsubject]
    rcases hv with hmarked | hother
    · intro hid
      have hsame : s.marks.get d.declared = s.marks.get v := by rw [Marks.get, hid, Marks.get]
      rw [hsame, hmarked.not_isUnused] at hunused
      cases hunused
    · exact hother d hd

theorem reportDeclarations_keeps (h : (reportDeclarations unread ds).Ends s u s') :
    s'.marks = s.marks ∧ s'.typeUse = s.typeUse := by
  rw [reportDeclarations, ends_modify] at h
  subst h
  exact ⟨rfl, rfl⟩

theorem repeatedTypes_kind (h : issue ∈ repeatedTypes p ds) : issue.kind = .repeatedType := by
  obtain ⟨group, -, hissue⟩ := mem_filterMap.mp h
  unfold repeated at hissue
  split at hissue
  · cases hissue
    rfl
  · cases hissue

theorem reportRepeatedTypes_grows (h : (reportRepeatedTypes p).Ends s u s') :
    s.GrowsQuietly s' := by
  obtain ⟨_, rfl⟩ := reportRepeatedTypes_ends h
  refine ⟨⟨.refl _, fun issue hi hkind => ?_⟩, rfl⟩
  rcases mem_append.mp hi with hold | hnew
  · exact hold
  · rw [repeatedTypes_kind hnew] at hkind
    cases hkind

theorem replay_grows (links : List (Variable × Variable)) (marks : Marks) :
    marks.Grows (replay links marks) :=
  (State.grows_closed.of_replay links (.start marks)).marks

theorem replayAliases_grows (h : replayAliases.Ends s u s') : s.GrowsQuietly s' := by
  rw [replayAliases, ends_modify] at h
  subst h
  exact State.growsQuietly_closed.of_replay s.aliases s

end Reports

/-- The modules whose variables are reported: the picture, the modules below it and the module
types of its own file. -/
inductive Reported (p : Picture) : Body → Prop
  | picture : Reported p p.body
  | module {info inner} (h : Module.Inside p.submodules (.single info inner)) :
      Reported p (info.body inner)
  | ownType {type} (ht : type ∈ p.types) (hown : p.isOwnFile type.originFile = .ok true) :
      Reported p type.body

section Analysis

variable {p : Picture} {n : Nat} {v : Variable} {s s' : State} {u : Unit} {access : Access}

theorem walkPicture_marked (hp : p.Distinct) (hac : p.Acyclic) (hn : Bounded p n)
    (h : (walkPicture p).Ends s u s') (hsize : s.marks.entries.size = n) (hs : Informed p s) :
    s.Grows s' ∧ Informed p s' ∧ Marked p p.body s' ∧
      ∀ {info inner}, Module.Inside p.submodules (.single info inner) →
        Marked p (info.body inner) s' := by
  obtain ⟨_, _, _, hcode, hdefinition, hheader, hmodules⟩ := walkPicture_ends h
  have hready : Ready p n (walkType p p.types.length) p.submodules :=
    ⟨fun _ htype => ⟨hn.fits hp (.type (Picture.type?_mem htype)),
      walkType_completes hp hac hn (Picture.type?_mem htype)⟩, fun hm => hn.fits hp (.module hm)⟩
  have h₁ := record_grows hcode
  have h₂ := (record_grows hdefinition).trans (record_grows hheader)
  have h₃ := h₁.trans h₂
  have hwalked := hready.walks hmodules (h₃.marks.size_eq.trans hsize) (hs.of_eq h₃.typeUse_eq)
  refine ⟨h₃.toGrows.trans hwalked.grows, hwalked.informed, ?_, hwalked.inside⟩
  have hfits : Fits n p.body := hn.fits hp .picture
  intro access v hv hx
  have hfind : Variable.find? p.locals v.key = some v := hfits.find? hv
  have hid := hfits.id_lt v hv
  have hplain := hfits.plain v hv
  rcases hx.code_or_below with hx | hx
  · have hmarked := record_found hcode (hx.found hplain) hfind (hsize ▸ hid)
    exact (h₂.toGrows.trans hwalked.grows).marks.keeps v access hmarked
  · exact hwalked.marks hfind hid hplain hx

variable {type : TypeDef} {marks : Marks} {issues : List Issue}

theorem declared_mem_allVariables {path : Path} {d : Declaration}
    (hd : d ∈ type.ownDeclarations path) : d.declared ∈ type.allVariables := by
  refine mem_append_left _ ?_
  rcases mem_append.mp hd with hd | hd
  · obtain ⟨v, hv, rfl⟩ := mem_map.mp hd
    exact mem_append_left _ hv
  · obtain ⟨v, hv, rfl⟩ := mem_map.mp hd
    exact mem_append_right _ hv

/-- One module type more is reported: nothing is said of a variable that is marked before or that
belongs to another type, and a variable that the type uses is marked now. -/
theorem reportTypes_marked (hp : p.Distinct) (hac : p.Acyclic) (hn : Bounded p n)
    {types : List TypeDef} (hsub : types ⊆ p.types)
    (hids : ((types.flatMap TypeDef.allVariables).map Variable.id).Nodup)
    (h : (reportTypes p types).Ends s u s') (hsize : s.marks.entries.size = n)
    (hs : Informed p s) (hclear : Clear v s)
    (hv : s.marks.Has v access ∨ ∃ type ∈ types, p.isOwnFile type.originFile = .ok true ∧
      v ∈ type.body.scope ∧ Uses p access type.body v.key) :
    s'.marks.Has v access ∧ Clear v s' := by
  induction types generalizing s with
  | nil =>
    obtain ⟨-, rfl⟩ := ends_pure.mp h
    rcases hv with hv | ⟨type, ht, -⟩
    · exact ⟨hv, hclear⟩
    · simp at ht
  | cons first rest ih =>
    rw [flatMap_cons, map_append, nodup_append] at hids
    obtain ⟨-, hrest, hapart⟩ := hids
    have hsub' : rest ⊆ p.types := fun type ht => hsub (mem_cons_of_mem first ht)
    rcases reportTypes_cons.mp h with ⟨hown, h⟩ | ⟨-, s₁, s₂, hwalk, hreport, h⟩
    · refine ih hsub' hrest h hsize hs hclear (hv.imp_right ?_)
      rintro ⟨type, ht, howned, hused⟩
      rcases mem_cons.mp ht with rfl | ht
      · rw [hown] at howned
        cases howned
      · exact ⟨type, ht, howned, hused⟩
    · have hdone := walkType_completes hp hac hn (hsub mem_cons_self) hwalk hsize hs
      obtain ⟨hmarks, hmemo⟩ := reportDeclarations_keeps hreport
      have hcase : s₁.marks.Has v access ∨ ∃ type ∈ rest,
          p.isOwnFile type.originFile = .ok true ∧ v ∈ type.body.scope ∧
            Uses p access type.body v.key := by
        rcases hv with hv | ⟨type, ht, howned, hscope, huses⟩
        · exact .inl (hdone.grows.marks.keeps v access hv)
        · rcases mem_cons.mp ht with rfl | ht
          · exact .inl (hdone.marked v hscope huses)
          · exact .inr ⟨type, ht, howned, hscope, huses⟩
      refine ih hsub' hrest h (hmarks ▸ hdone.grows.marks.size_eq.trans hsize)
        (hdone.informed.of_eq hmemo) ?_ (hmarks.symm ▸ hcase)
      refine reportDeclarations_clear hreport (hclear.grows hdone.grows) (hcase.imp_right ?_)
      rintro ⟨type, ht, -, hscope, -⟩ d hd
      have hmem : v ∈ rest.flatMap TypeDef.allVariables :=
        mem_flatMap.mpr ⟨type, ht, mem_append_left _ hscope⟩
      exact hapart _ (mem_map_of_mem (declared_mem_allVariables hd)) _
        (mem_map_of_mem hmem)

/-- The variables of the module types have other numbers than those of the modules. -/
theorem id_ne_of_type (hids : (p.allVariables.map Variable.id).Nodup) (ht : type ∈ p.types)
    (hv : v ∈ type.body.scope) {w : Variable}
    (hw : w ∈ p.locals ++ Module.allVariablesOf p.submodules) : w.id ≠ v.id := by
  rw [Picture.allVariables, append_assoc, map_append, nodup_append] at hids
  have hmem : v ∈ p.types.flatMap TypeDef.allVariables :=
    mem_flatMap.mpr ⟨type, ht, mem_append_left _ hv⟩
  exact (hids.2.2 _ (mem_map_of_mem hmem) _ (mem_map_of_mem hw)).symm

theorem analyze_ends (h : (analyze p marks).1 = .ok issues) :
    ∃ s', (analysis p).Ends (State.start marks) issues s' ∧ (analyze p marks).2 = s'.marks := by
  refine ⟨((analysis p).run.run (State.start marks)).2, ?_, rfl⟩
  rw [Walk.Ends, ← h]
  rfl

theorem analysis_marked (hp : p.Distinct) (hac : p.Acyclic) (hn : Bounded p marks.next)
    (hids : (p.allVariables.map Variable.id).Nodup)
    (h : (analysis p).Ends (State.start marks) issues s') {body : Body} (hbody : Reported p body)
    (hv : v ∈ body.scope) (huse : Uses p access body v.key) :
    s'.marks.Has v access ∧
      ∀ issue ∈ issues, issue.kind = .unused → issue.subject.id ≠ v.id := by
  simp only [analysis, ends_bind, ends_modify, ends_get, ends_pure] at h
  obtain ⟨_, _, rfl, _, s₁, hwalk, _, s₂, hreplay, _, s₃, hrepeated, _, s₄, hlocals, _, s₅,
    hmodules, _, s₆, htypes, _, _, ⟨rfl, rfl⟩, rfl, rfl⟩ := h
  obtain ⟨h₁, hinformed, hpicture, hinside⟩ :=
    walkPicture_marked hp hac hn hwalk rfl fun _ _ _ hentry => by simp [State.start] at hentry
  have h₃ := (replayAliases_grows hreplay).trans (reportRepeatedTypes_grows hrepeated)
  have hclear : Clear v s₃ := by
    refine Clear.grows (fun issue hi => ?_) (h₁.trans h₃.toGrows)
    simp at hi
  obtain ⟨hmarks₄, hmemo₄⟩ := reportDeclarations_keeps hlocals
  obtain ⟨hmarks₅, hmemo₅⟩ := reportDeclarations_keeps hmodules
  -- A variable of the picture or of a module is marked by now, one of a module type comes later.
  have hcase : s₃.marks.Has v access ∨ ∃ type ∈ p.types, p.isOwnFile type.originFile = .ok true ∧
      v ∈ type.body.scope ∧ Uses p access type.body v.key := by
    cases hbody with
    | picture => exact .inl ((hpicture.grows h₃.toGrows) v hv huse)
    | module hm => exact .inl (((hinside hm).grows h₃.toGrows) v hv huse)
    | ownType ht hown => exact .inr ⟨_, ht, hown, hv, huse⟩
  have hclear₄ : Clear v s₄ := by
    refine reportDeclarations_clear hlocals hclear (hcase.imp_right ?_)
    rintro ⟨type, ht, -, hscope, -⟩ d hd
    obtain ⟨w, hw, rfl⟩ := mem_map.mp hd
    exact id_ne_of_type hids ht hscope (mem_append_left _ hw)
  have hclear₅ : Clear v s₅ := by
    refine reportDeclarations_clear hmodules hclear₄ (hmarks₄.symm ▸ hcase.imp_right ?_)
    rintro ⟨type, ht, -, hscope, -⟩ d hd
    have hmem : d.declared ∈ Module.allVariablesOf p.submodules := by
      rw [← Module.declarationsOf_declared]
      exact mem_map_of_mem hd
    exact id_ne_of_type hids ht hscope (mem_append_right _ hmem)
  have hmarks : s₅.marks = s₃.marks := hmarks₅.trans hmarks₄
  refine reportTypes_marked hp hac hn (fun _ ht => ht) ?_ htypes ?_ ?_ hclear₅
    (hmarks.symm ▸ hcase)
  · rw [Picture.allVariables, append_assoc, map_append, nodup_append] at hids
    exact hids.1
  · rw [hmarks, h₃.marks.size_eq, h₁.marks.size_eq]
    rfl
  · exact hinformed.of_eq (hmemo₅.trans (hmemo₄.trans h₃.typeUse_eq))

/-- No variable of the program has a dot in its name. -/
def Undotted (p : Picture) : Prop :=
  ∀ body, p.HasBody body → ∀ v ∈ body.scope, '.' ∉ v.name.toList

/-- No false report through code and parameter chains. In a program whose module types have
different names and do not contain each other, and whose modules have different names for their
variables, none with a dot: a variable that its module uses is marked with that use, and is not
called unused. -/
theorem uses_marked_and_not_reported {value : Value} {start marks : Marks}
    (hread : value.toPicture.run start = .ok (p, marks)) (hp : p.Distinct) (hac : p.Acyclic)
    (hplain : Undotted p) {issues : List Issue} (hrun : (analyze p marks).1 = .ok issues) {body : Body}
    (hbody : Reported p body) (hv : v ∈ body.scope) (huse : Uses p access body v.key) :
    (analyze p marks).2.Has v access ∧
      ∀ issue ∈ issues, issue.kind = .unused → issue.subject.id ≠ v.id := by
  have hnumbers := Value.toPicture_declares value hread
  have hn : Bounded p marks.next := fun body hb v hv =>
    ⟨mt Text.dot_mem_lower.mp (hplain body hb v hv), hnumbers.id_lt (hb.scope_subset hv)⟩
  obtain ⟨s', hends, hmarks⟩ := analyze_ends hrun
  rw [hmarks]
  exact analysis_marked hp hac hn hnumbers.nodup hends hbody hv huse

end Analysis

/-! A program with a chain of two parameters: the picture's `Tank` is connected to a parameter of
a module below a frame, and that one to the parameter `Level` that the type of an instance
reads. -/

def integerNamed (name : String) : Value :=
  .element .variable [.text name, .simpleType .integer, .bool false, .bool false, .bool false,
    .bool false, .bool false, .null, .null, .bool false, .bool false, .list []]

def integerVariable (id : Nat) (name : String) : Variable :=
  ⟨id, name, .simple .integer, .bool false, .bool false, .bool false, .bool false, .bool false,
    .null, .null⟩

def headerNamed (name : String) : Value :=
  .element .moduleHeader [.text name, .null, .null, .bool true, .null, .bool false, .null, .null,
    .bool false]

def plainHeader (name : String) : Header :=
  ⟨name, .null, .null, .bool true, .null, .bool false, .null, .null, .bool false⟩

def reference (name : String) : Value :=
  .dict [.text "var_name", .text "state"] [.text name, .null]

def connection (target source : String) : Value :=
  .element .parameterMapping [reference target, .null, .bool false, .bool false, reference source,
    .null]

def plainMapping (target source : String) : Mapping :=
  ⟨reference target, .null, .bool false, .bool false, reference source, .null⟩

/-- Code with one assignment. -/
def assignment (target source : String) : Value :=
  .element .moduleCode [.list [], .list [.element .equation [.text "Show", .null, .null,
    .list [.tuple [.text "assign", reference target, reference source]]]]]

def chainedValue : Value :=
  .element .basePicture [headerNamed "Plant", .text "BasePicture", .null, .list [],
    .list [.element .typeDef [.text "Display", .null, .list [integerNamed "Level"],
      .list [integerNamed "Shown"], .list [], .null, assignment "Shown" "LEVEL", .list [], .null, .bool false,
      .null, .null]],
    .list [integerNamed "Tank"],
    .list [.element .frameModule [headerNamed "Area", .null,
      .list [.element .singleModule [headerNamed "Unit", .null, .null,
        .list [integerNamed "Amount"], .list [],
        .list [.element .typeInstance [headerNamed "Screen", .text "DISPLAY",
          .list [connection "level" "amount"]]],
        .null, .list [connection "Amount" "tank"]]],
      .null, .null]],
    .null, .null, .null, .null, .null]

def displayType : TypeDef :=
  ⟨"Display", .null, [integerVariable 0 "Level"], [integerVariable 1 "Shown"], [], .null,
    assignment "Shown" "LEVEL", [], .null, .bool false, .null, .null, []⟩

def screen : InstanceInfo :=
  ⟨plainHeader "Screen", "DISPLAY", [plainMapping "level" "amount"], []⟩

def unitModule : SingleInfo :=
  ⟨plainHeader "Unit", .null, .null, [integerVariable 3 "Amount"], [], .null,
    [plainMapping "Amount" "tank"], []⟩

def area : FrameInfo :=
  ⟨plainHeader "Area", .null, .null, .null, []⟩

def chainedPicture : Picture :=
  ⟨plainHeader "Plant", .text "BasePicture", .null, [], [displayType], [integerVariable 2 "Tank"],
    [.frame area [.single unitModule [.typed screen]]], .null, .null, .null, .null, []⟩

def chainedMarks : Marks :=
  ⟨#[{}, {}, {}, {}]⟩

theorem chained_read : chainedValue.toPicture.run {} = .ok (chainedPicture, chainedMarks) := by
  rfl

theorem chained_type? : chainedPicture.type? "DISPLAY" = some displayType := by
  have hkey : Text.lower "DISPLAY" = displayType.key := by decide
  simp [Picture.type?, chainedPicture, hkey]

theorem chained_inside {info : SingleInfo} {inner : List Module}
    (h : Module.Inside chainedPicture.submodules (.single info inner)) :
    info = unitModule ∧ inner = [.typed screen] := by
  rcases h.of_frame.of_single with heq | hm
  · cases heq
    exact ⟨rfl, rfl⟩
  · cases hm.of_typed

theorem chained_distinct : chainedPicture.Distinct := by
  refine ⟨by simp [chainedPicture], ?_⟩
  intro body hbody
  cases hbody with
  | picture => simp [chainedPicture, Picture.body, Body.scope]
  | module hm =>
    obtain ⟨rfl, rfl⟩ := chained_inside hm
    simp [unitModule, SingleInfo.body, Body.scope]
  | type ht =>
    obtain rfl := mem_singleton.mp ht
    decide
  | typeModule ht hm =>
    obtain rfl := mem_singleton.mp ht
    exact absurd hm Module.Inside.not_nil

theorem chained_acyclic : chainedPicture.Acyclic := by
  intro type h
  obtain ⟨outer, -, info, -, htype⟩ := Relation.TransGen.tail'_iff.mp h
  obtain ⟨inner, ⟨first, hinside, -⟩, -⟩ := Relation.TransGen.head'_iff.mp h
  obtain rfl := mem_singleton.mp (Picture.type?_mem htype)
  exact Module.Inside.not_nil hinside

theorem chained_undotted : Undotted chainedPicture := by
  intro body hbody
  cases hbody with
  | picture => decide
  | module hm =>
    obtain ⟨rfl, rfl⟩ := chained_inside hm
    decide
  | type ht =>
    obtain rfl := mem_singleton.mp ht
    decide
  | typeModule ht hm =>
    obtain rfl := mem_singleton.mp ht
    exact absurd hm Module.Inside.not_nil

theorem names_reference {name x : String} (hname : IsName name) (hx : Text.lower name = x) :
    Names (reference name) x :=
  ⟨name, "", hname, .inl rfl, by rw [String.append_empty]; rfl, hx⟩

theorem chained_uses : Uses chainedPicture .read chainedPicture.body "tank" := by
  have hlevel : Uses chainedPicture .read displayType.body "level" := by
    refine .code (.equation (mem_singleton_self _) rfl (mem_singleton_self _)
      (.assigned (.reference (names_reference (.inr ?_) ?_)))) <;> decide
  have hamount : Uses chainedPicture .read (unitModule.body [.typed screen]) "amount" := by
    refine .typed (.here (mem_singleton_self _)) chained_type? (mem_singleton_self _)
      (mem_singleton_self _) ⟨rfl, names_reference (.inr ?_) ?_, names_reference (.inr ?_) ?_⟩ hlevel
    all_goals decide
  refine .single (.framed (mem_singleton_self _) (.here (mem_singleton_self _)))
    (mem_singleton_self _) (mem_singleton_self _)
    ⟨rfl, names_reference (.inr ?_) ?_, names_reference (.inr ?_) ?_⟩ hamount
  all_goals decide

theorem chained_use_not_reported :
    ∃ issues, (analyze chainedPicture chainedMarks).1 = .ok issues ∧
      (analyze chainedPicture chainedMarks).2.Has (integerVariable 2 "Tank") .read ∧
      ∀ issue ∈ issues, issue.kind = .unused → issue.subject.id ≠ 2 := by
  have hends : (analyze chainedPicture chainedMarks).1.toOption.isSome = true := by
    decide
  cases hrun : (analyze chainedPicture chainedMarks).1 with
  | error problem =>
      rw [hrun] at hends
      cases hends
  | ok issues =>
      refine ⟨issues, rfl, uses_marked_and_not_reported chained_read chained_distinct
        chained_acyclic chained_undotted hrun .picture
        (mem_singleton_self (integerVariable 2 "Tank")) ?_⟩
      exact chained_uses

/-! A picture whose code is `Out = 'a.b'`. -/

def dottedValue : Value :=
  .element .basePicture [headerNamed "Plant", .text "BasePicture", .null, .list [], .list [],
    .list [integerNamed "'a.b'", integerNamed "Out"], .list [], .null,
    assignment "Out" "'a.b'", .null, .null, .null]

def dottedPicture : Picture :=
  ⟨plainHeader "Plant", .text "BasePicture", .null, [], [],
    [integerVariable 0 "'a.b'", integerVariable 1 "Out"], [], .null, assignment "Out" "'a.b'", .null,
    .null, []⟩

/-- A variable with a dot in its name is called unused although the code reads it. -/
theorem dotted_read_reported :
    dottedValue.toPicture.run {} = .ok (dottedPicture, ⟨#[{}, {}]⟩) ∧ dottedPicture.Distinct ∧
      dottedPicture.Acyclic ∧
      Uses dottedPicture .read dottedPicture.body (integerVariable 0 "'a.b'").key ∧
      ∃ issues, (analyze dottedPicture ⟨#[{}, {}]⟩).1 = .ok issues ∧
        ∃ issue ∈ issues, issue.kind = .unused ∧ issue.subject.id = 0 := by
  refine ⟨rfl, ⟨nodup_nil, ?_⟩, ?_, ?_, ?_⟩
  · intro body hbody
    cases hbody with
    | picture => decide
    | module hm => exact absurd hm Module.Inside.not_nil
    | type ht | typeModule ht hm => cases ht
  · intro type h
    obtain ⟨_, -, _, -, htype⟩ := Relation.TransGen.tail'_iff.mp h
    cases htype
  · exact .code (.equation (mem_singleton_self _) rfl (mem_singleton_self _)
      (.assigned (.reference (names_reference (.inl ⟨['a', '.', 'b'], by decide, rfl⟩) rfl))))
  · have hreported : (analyze dottedPicture ⟨#[{}, {}]⟩).1.toOption.any (fun issues =>
        issues.any fun issue => issue.kind == .unused && issue.subject.id == 0) = true := by
      decide
    cases hrun : (analyze dottedPicture ⟨#[{}, {}]⟩).1 with
    | error problem =>
      rw [hrun] at hreported
      cases hreported
    | ok issues =>
      rw [hrun] at hreported
      exact ⟨issues, rfl, by simpa [Except.toOption] using hreported⟩

end SattLine.Usage
