import Mathlib.Algebra.Order.Group.Multiset
import Mathlib.Tactic.Abel
import SattLine.Proofs.Usage.Classified

/-!
Connections between different string types. Main statement: the issues of that kind are those of the
modules below the picture, connection by connection, and others from inside module types; and a
connection of two string variables has just one if the types differ and the parameter is declared in
small letters, and none otherwise.
-/

namespace SattLine.Usage

open List
open Walk

/-- A module with connections: its path, the variables around it, and the parameters that can be
connected. -/
structure Junction where
  path : Path
  scope : List Variable
  parameters : List Variable
  mappings : List Mapping

/-- The issue of a connection to a parameter, if there is one. -/
def mismatchOf? (p : Picture) (target : Option Variable) (scope : List Variable) (path : Path)
    (m : Mapping) : Option Issue :=
  match target, sourceOf p scope m with
  | some target, .ok (some source) =>
    if !m.isGlobal.holds && mismatched target source then some (mismatch target source path)
    else none
  | _, _ => none

namespace Junction

def issue? (p : Picture) (j : Junction) (m : Mapping) : Option Issue :=
  match exactTarget j.parameters m with
  | .ok target => mismatchOf? p target j.scope j.path m
  | .error _ => none

/-- The issues of a module, one connection after the other. -/
def issues (p : Picture) (j : Junction) : List Issue :=
  j.mappings.filterMap (j.issue? p)

end Junction

mutual

/-- The modules with connections at and below a module: those with a body of their own and the
instances of known module types. -/
def junctionsOf (p : Picture) (scope : List Variable) (path : Path) : Module → List Junction
  | .single info inner =>
    junctionsIn p info.scope (path ++ [info.header.name]) inner ++
      [⟨path ++ [info.header.name], scope, info.parameters, info.mappings⟩]
  | .frame info inner => junctionsIn p scope (path ++ [info.header.name]) inner
  | .typed info =>
    match p.type? info.typeName with
    | none => []
    | some type => [⟨path ++ [info.header.name], scope, type.parameters, info.mappings⟩]
  | .stray _ => []

def junctionsIn (p : Picture) (scope : List Variable) (path : Path) : List Module → List Junction
  | [] => []
  | m :: rest => junctionsOf p scope path m ++ junctionsIn p scope path rest

end

/-- The modules with connections below a picture. -/
def junctions (p : Picture) : List Junction :=
  junctionsIn p p.locals [p.header.name] p.submodules

/-- An issue on a connection inside a module type, which its path names. -/
structure InType (p : Picture) (issue : Issue) : Prop where
  kind : issue.kind = .stringMismatch
  path : ∃ type ∈ p.types, type.label ∈ issue.path

/-- The issues of a report on connections between different string types. -/
def mismatches (issues : List Issue) : Multiset Issue :=
  issues.filter fun issue => issue.kind == .stringMismatch

/-- Between two states the issues of the junctions are reported, and others from inside module
types. -/
def Gathers (p : Picture) (js : List Junction) (s s' : State) : Prop :=
  ∃ inner : Multiset Issue, (∀ issue ∈ inner, InType p issue) ∧
    mismatches s'.issues = mismatches s.issues + ↑(js.flatMap (Junction.issues p)) + inner

section Issues

variable {p : Picture} {s t s' : State} {u : Unit} {path : Path} {scope : List Variable}
  {js others : List Junction} {found : List Issue}

theorem mismatches_append (first rest : List Issue) :
    mismatches (first ++ rest) = mismatches first + mismatches rest := by
  rw [mismatches, filter_append, ← Multiset.coe_add, mismatches, mismatches]

theorem mismatches_eq_self (h : ∀ issue ∈ found, issue.kind = .stringMismatch) :
    mismatches found = found := by
  rw [mismatches, filter_eq_self.mpr fun issue hissue => beq_iff_eq.mpr (h issue hissue)]

theorem mismatches_eq_zero (h : ∀ issue ∈ found, issue.kind ≠ .stringMismatch) :
    mismatches found = 0 := by
  rw [mismatches, filter_eq_nil_iff.mpr fun issue hissue => by simpa using h issue hissue]
  rfl

theorem Gathers.of_eq (h : mismatches s'.issues = mismatches s.issues) : Gathers p [] s s' :=
  ⟨0, by simp, by simp [h]⟩

theorem Gathers.trans (h : Gathers p js s t) (hrest : Gathers p others t s') :
    Gathers p (js ++ others) s s' := by
  obtain ⟨inner, hinner, hfound⟩ := h
  obtain ⟨more, hmore, hothers⟩ := hrest
  refine ⟨inner + more, fun issue hissue => ?_, ?_⟩
  · exact (Multiset.mem_add.mp hissue).elim (hinner issue) (hmore issue)
  · rw [hothers, hfound, flatMap_append, ← Multiset.coe_add]
    abel

theorem Gathers.quiet (h : Gathers p js s t) (hsame : s'.issues = t.issues) :
    Gathers p js s s' := by
  have hall := h.trans (.of_eq (congrArg mismatches hsame))
  rwa [append_nil] at hall

theorem issues_noting : Noting fun s s' => s'.issues = s.issues where
  refl _ := rfl
  trans hab hbc := hbc.trans hab
  note _ _ _ _ := rfl

theorem issues_linking : Linking (fun _ => True) fun s s' => s'.issues = s.issues where
  refl _ := rfl
  trans hab hbc := hbc.trans hab
  link _ _ _ _ := rfl

/-- What three parts of a module state is recorded. -/
theorem recorded_gathers {inner : List Variable} {first second third : List Finding}
    {u' u'' : Unit} {t' : State} (hfirst : (record p scope path first).Ends s u t)
    (hsecond : (record p inner path second).Ends t u' t')
    (hthird : (record p inner path third).Ends t' u'' s') : Gathers p [] s s' :=
  .of_eq (congrArg mismatches ((issues_noting.of_record hthird).trans
    ((issues_noting.of_record hsecond).trans (issues_noting.of_record hfirst))))

variable {target : Option Variable} {m : Mapping} {issue : Issue} {parameters : List Variable}
  {mappings : List Mapping}

theorem mismatchOf?_eq_some (h : mismatchOf? p target scope path m = some issue) :
    issue.kind = .stringMismatch ∧ issue.path = path := by
  unfold mismatchOf? at h
  split at h
  · split at h
    · cases h
      exact ⟨rfl, rfl⟩
    · cases h
  · cases h

theorem Junction.of_mem_issues {j : Junction} (h : issue ∈ j.issues p) :
    issue.kind = .stringMismatch ∧ issue.path = j.path := by
  obtain ⟨m, -, hissue⟩ := mem_filterMap.mp h
  unfold Junction.issue? at hissue
  split at hissue
  · exact mismatchOf?_eq_some hissue
  · cases hissue

theorem checkMapping_issues (h : (checkMapping p target scope path m).Ends s u s') :
    s'.issues = s.issues ++ (mismatchOf? p target scope path m).toList := by
  cases target with
  | none =>
    obtain ⟨-, rfl⟩ := ends_pure.mp h
    exact (append_nil _).symm
  | some target =>
    by_cases hglobal : m.isGlobal.holds = true
    · simp only [checkMapping, hglobal, if_true] at h
      obtain ⟨-, rfl⟩ := ends_pure.mp h
      cases hsource : sourceOf p scope m with
      | error f => simp [mismatchOf?, hsource]
      | ok source => cases source <;> simp [mismatchOf?, hsource, hglobal]
    · simp only [checkMapping, hglobal, Bool.false_eq_true, if_false, ends_bind,
        ends_ofFault] at h
      obtain ⟨source, _, ⟨hsource, rfl⟩, h⟩ := h
      cases source with
      | none =>
        obtain ⟨-, rfl⟩ := ends_pure.mp h
        simp [mismatchOf?, hsource]
      | some source =>
        by_cases hdiffer : mismatched target source = true
        · simp only [hdiffer, if_true, report, ends_modify] at h
          simp [mismatchOf?, hsource, hglobal, hdiffer, h]
        · simp only [hdiffer, Bool.false_eq_true, if_false] at h
          obtain ⟨-, rfl⟩ := ends_pure.mp h
          simp [mismatchOf?, hsource, hdiffer]

theorem checkMappings_issues (h : (checkMappings p parameters scope path mappings).Ends s u s') :
    s'.issues = s.issues ++ (Junction.mk path scope parameters mappings).issues p := by
  induction mappings generalizing s with
  | nil =>
    obtain ⟨-, rfl⟩ := ends_pure.mp h
    exact (append_nil _).symm
  | cons m rest ih =>
    simp only [checkMappings, ends_bind, ends_ofFault] at h
    obtain ⟨target, _, ⟨htarget, rfl⟩, _, t, hfirst, hrest⟩ := h
    have hissue : (Junction.mk path scope parameters (m :: rest)).issue? p m =
        mismatchOf? p target scope path m := by
      simp only [Junction.issue?, htarget]
    rw [ih hrest, checkMapping_issues hfirst, append_assoc, Junction.issues,
      Junction.issues, filterMap_cons, hissue]
    cases mismatchOf? p target scope path m <;> rfl

/-- The check of a module's connections reports the issues of the module. -/
theorem Gathers.checked (h : Gathers p js s t)
    (hcheck : (checkMappings p parameters scope path mappings).Ends t u s') :
    Gathers p (js ++ [⟨path, scope, parameters, mappings⟩]) s s' := by
  refine h.trans ⟨0, by simp, ?_⟩
  rw [checkMappings_issues hcheck, mismatches_append,
    mismatches_eq_self fun issue hissue => (Junction.of_mem_issues hissue).1]
  simp

variable {type : TypeDef}

theorem checkOwnMappings_gathers (ht : type ∈ p.types) (hlabel : type.label ∈ path)
    (h : (checkOwnMappings p scope path mappings).Ends s u s') : Gathers p [] s s' := by
  induction mappings generalizing s with
  | nil =>
    obtain ⟨-, rfl⟩ := ends_pure.mp h
    exact .of_eq rfl
  | cons m rest ih =>
    simp only [checkOwnMappings, ends_bind, ends_ofFault] at h
    obtain ⟨target, s₀, ⟨-, rfl⟩, _, t, hfirst, hrest⟩ := h
    have hown : ∀ issue ∈ (mismatchOf? p target scope path m).toList,
        issue.kind = .stringMismatch ∧ issue.path = path :=
      fun issue hissue => mismatchOf?_eq_some (Option.mem_toList.mp hissue)
    have hinside : Gathers p [] s₀ t := by
      refine ⟨↑(mismatchOf? p target scope path m).toList, fun issue hissue => ?_, ?_⟩
      · obtain ⟨hkind, hat⟩ := hown issue hissue
        exact ⟨hkind, type, ht, hat ▸ hlabel⟩
      · rw [checkMapping_issues hfirst, mismatches_append,
          mismatches_eq_self fun issue hissue => (hown issue hissue).1]
        simp
    exact hinside.trans (ih hrest)

/-- All that is gathered below the path of a module type is from inside it. -/
theorem Gathers.inType (h : Gathers p js s s') (ht : type ∈ p.types)
    (hjs : ∀ j ∈ js, type.label ∈ j.path) : Gathers p [] s s' := by
  obtain ⟨inner, hinner, hfound⟩ := h
  refine ⟨↑(js.flatMap (Junction.issues p)) + inner, fun issue hissue => ?_, ?_⟩
  · rcases Multiset.mem_add.mp hissue with hmem | hmem
    · obtain ⟨j, hj, hmem⟩ := mem_flatMap.mp (Multiset.mem_coe.mp hmem)
      obtain ⟨hkind, hpath⟩ := Junction.of_mem_issues hmem
      exact ⟨hkind, type, ht, hpath ▸ hjs j hj⟩
    · exact hinner issue hmem
  · simp [hfound, add_assoc]

end Issues

section Walks

variable {p : Picture} {s s' : State} {u : Unit}

/-- The path of a module goes through all modules around it. -/
theorem mem_path_of_mem_junctionsIn {label : String} {j : Junction} :
    ∀ {modules : List Module} {scope : List Variable} {path : Path},
      j ∈ junctionsIn p scope path modules → label ∈ path → label ∈ j.path
  | [], _, _, h, _ => nomatch h
  | .single info inner :: rest, _, path, h, hlabel => by
    rw [junctionsIn, junctionsOf] at h
    have hinside : label ∈ path ++ [info.header.name] := mem_append_left _ hlabel
    rcases mem_append.mp h with h | h
    · rcases mem_append.mp h with h | h
      · exact mem_path_of_mem_junctionsIn h hinside
      · rw [mem_singleton.mp h]
        exact hinside
    · exact mem_path_of_mem_junctionsIn h hlabel
  | .frame info inner :: rest, _, _, h, hlabel => by
    rw [junctionsIn, junctionsOf] at h
    rcases mem_append.mp h with h | h
    · exact mem_path_of_mem_junctionsIn h (mem_append_left _ hlabel)
    · exact mem_path_of_mem_junctionsIn h hlabel
  | .typed info :: rest, _, _, h, hlabel => by
    rw [junctionsIn, junctionsOf] at h
    rcases mem_append.mp h with h | h
    · split at h
      · cases h
      · rw [mem_singleton.mp h]
        exact mem_append_left _ hlabel
    · exact mem_path_of_mem_junctionsIn h hlabel
  | .stray _ :: rest, _, _, h, hlabel => by
    rw [junctionsIn, junctionsOf, nil_append] at h
    exact mem_path_of_mem_junctionsIn h hlabel

variable {onType : TypeDef → Path → Walk Unit}

theorem typeUse_gathers {type : TypeDef} {path : Path} {use : ParameterUse}
    (hon : ∀ ⦃path s u s'⦄, type.label ∈ path → (onType type path).Ends s u s' →
      Gathers p [] s s') (h : (typeUse onType type path).Ends s use s') : Gathers p [] s s' := by
  rcases typeUse_ends h with ⟨-, rfl⟩ | ⟨-, hwalk, -⟩
  · exact .of_eq rfl
  · exact hon (mem_append_right _ (mem_singleton_self _)) hwalk

/-- The walk over modules gathers the issues of all modules among and inside them. -/
theorem walkModules_gathers (hon : ∀ ⦃type path s u s'⦄, type ∈ p.types → type.label ∈ path →
      (onType type path).Ends s u s' → Gathers p [] s s') :
    ∀ {modules : List Module} {scope : List Variable} {path : Path} {s s' : State} {u : Unit},
      (walkModules p onType scope path modules).Ends s u s' →
        Gathers p (junctionsIn p scope path modules) s s'
  | [], _, _, _, _, _, h => by
    obtain ⟨-, rfl⟩ := ends_pure.mp h
    exact .of_eq rfl
  | .single info inner :: rest, _, _, _, _, _, h => by
    simp only [walkModules, walkModule, ends_bind, ends_get] at h
    obtain ⟨_, _, ⟨_, _, hheader, _, _, hdefinition, _, _, hcode, _, _, hinner, _, _, ⟨rfl, rfl⟩,
      _, _, hlink, _, _, hpass, hcheck⟩, hrest⟩ := h
    have hwalked := (recorded_gathers hheader hdefinition hcode).trans
      (walkModules_gathers hon hinner)
    have hlinked := hwalked.quiet (issues_linking.of_link (fun _ _ => trivial) hlink)
    have hpassed := hlinked.quiet (issues_noting.of_passOnAll hpass)
    rw [junctionsIn, junctionsOf]
    exact (hpassed.checked hcheck).trans (walkModules_gathers hon hrest)
  | .frame info inner :: rest, _, _, _, _, _, h => by
    simp only [walkModules, walkModule, ends_bind] at h
    obtain ⟨_, _, ⟨_, _, hheader, _, _, hdefinition, _, _, hcode, hinner⟩, hrest⟩ := h
    have hwalked := (recorded_gathers hheader hdefinition hcode).trans
      (walkModules_gathers hon hinner)
    rw [junctionsIn, junctionsOf]
    exact hwalked.trans (walkModules_gathers hon hrest)
  | .typed info :: rest, _, _, _, _, _, h => by
    simp only [walkModules, walkModule, ends_bind] at h
    obtain ⟨_, _, ⟨_, _, hheader, hinstance⟩, hrest⟩ := h
    have hbefore : Gathers p [] _ _ :=
      .of_eq (congrArg mismatches (issues_noting.of_record hheader))
    rw [junctionsIn, junctionsOf]
    refine Gathers.trans ?_ (walkModules_gathers hon hrest)
    cases htype : p.type? info.typeName with
    | none =>
      simp only [htype] at hinstance
      exact hbefore.quiet (issues_noting.of_passOnAll hinstance)
    | some type =>
      simp only [htype, ends_bind] at hinstance
      obtain ⟨_, _, huse, _, _, hpass, hcheck⟩ := hinstance
      have hneeded := typeUse_gathers
        (fun _ _ _ _ hlabel hwalk => hon (Picture.type?_mem htype) hlabel hwalk) huse
      have hpassed := (hbefore.trans hneeded).quiet (issues_noting.of_passOnAll hpass)
      exact hpassed.checked hcheck
  | .stray _ :: rest, _, _, _, _, _, h => by
    simp only [walkModules, walkModule, ends_bind, ends_ofFault] at h
    obtain ⟨_, _, ⟨_, _, ⟨-, rfl⟩, _, _, hheader, hstray⟩, hrest⟩ := h
    split at hstray
    · exact absurd hstray ends_throw
    · obtain ⟨-, rfl⟩ := ends_pure.mp hstray
      rw [junctionsIn, junctionsOf]
      exact (Gathers.of_eq (congrArg mismatches (issues_noting.of_record hheader))).trans
        (walkModules_gathers hon hrest)

theorem walkType_gathers (p : Picture) : ∀ (depth : Nat) ⦃type path s u s'⦄, type ∈ p.types →
    type.label ∈ path → (walkType p depth type path).Ends s u s' → Gathers p [] s s'
  | 0, _, _, _, _, _, _, _, h => by
    obtain ⟨-, rfl⟩ := ends_pure.mp h
    exact .of_eq rfl
  | depth + 1, type, path, s, u, s', ht, hlabel, h => by
    simp only [walkType, ends_bind, ends_modify] at h
    obtain ⟨_, _, hdefinition, _, _, hcode, _, _, hmodules, _, _, hgroup, _, _, rfl, hmappings⟩ :=
      h
    have hwalked := (walkModules_gathers (walkType_gathers p depth) hmodules).quiet
      (issues_noting.of_record hgroup)
    have hinside := hwalked.inType ht fun j hj => mem_path_of_mem_junctionsIn hj hlabel
    have hbefore := (issues_noting.of_record hcode).trans (issues_noting.of_record hdefinition)
    have hown := checkOwnMappings_gathers ht hlabel hmappings
    exact ((Gathers.of_eq (congrArg mismatches hbefore)).trans hinside).trans hown

theorem walkPicture_gathers (h : (walkPicture p).Ends s u s') : Gathers p (junctions p) s s' := by
  obtain ⟨_, _, _, hcode, hdefinition, hheader, hmodules⟩ := walkPicture_ends h
  exact (recorded_gathers hcode hdefinition hheader).trans
    (walkModules_gathers (walkType_gathers p p.types.length) hmodules)

theorem reportDeclarations_gathers {unread : Bool} {ds : List Declaration}
    (h : (reportDeclarations unread ds).Ends s u s') : Gathers p [] s s' := by
  rw [reportDeclarations, ends_modify] at h
  subst h
  have hnone : mismatches (ds.filterMap (issueOf s.marks unread)) = 0 :=
    mismatches_eq_zero fun issue hissue hkind => by
      obtain ⟨d, -, hof⟩ := mem_filterMap.mp hissue
      have huse := issueOf_isOfUse hof
      rw [hkind] at huse
      cases huse
  exact .of_eq (by rw [mismatches_append, hnone, add_zero])

/-- The report on the module types adds only what is found inside them. -/
theorem reportTypes_gathers {types : List TypeDef} (hsub : types ⊆ p.types)
    (h : (reportTypes p types).Ends s u s') : Gathers p [] s s' := by
  induction types generalizing s with
  | nil =>
    obtain ⟨-, rfl⟩ := ends_pure.mp h
    exact .of_eq rfl
  | cons type rest ih =>
    have hrest := fun other ho => hsub (mem_cons_of_mem type (a := other) ho)
    rcases reportTypes_cons.mp h with ⟨-, h⟩ | ⟨-, t, t', hwalk, hreport, h⟩
    · exact ih hrest h
    · have hwalked := walkType_gathers p _ (hsub mem_cons_self) (by simp) hwalk
      exact (hwalked.trans (reportDeclarations_gathers hreport)).trans (ih hrest h)

theorem analyze_gathers {marks : Marks} {issues : List Issue}
    (h : (analyze p marks).1 = .ok issues) : ∃ inner : Multiset Issue,
      (∀ issue ∈ inner, InType p issue) ∧
        mismatches issues = ↑((junctions p).flatMap (Junction.issues p)) + inner := by
  obtain ⟨s, s', hmodules, htypes, rfl, -⟩ := analyze_stages h
  simp only [reportModules, ends_bind, ends_modify] at hmodules
  obtain ⟨_, s₀, rfl, _, s₁, hwalk, _, s₂, hreplay, _, s₃, hrepeated, _, s₄, hlocals, hbelow⟩ :=
    hmodules
  rw [replayAliases, ends_modify] at hreplay
  obtain ⟨ds, rfl⟩ := reportRepeatedTypes_ends hrepeated
  have hnone : mismatches (repeatedTypes p ds) = 0 :=
    mismatches_eq_zero fun issue hissue hkind => by
      rw [repeatedTypes_kind hissue] at hkind
      cases hkind
  have hbetween : Gathers p [] s₁ { s₂ with issues := s₂.issues ++ repeatedTypes p ds } :=
    .of_eq (by rw [mismatches_append, hnone, add_zero, hreplay])
  have hreported := (hbetween.trans (reportDeclarations_gathers hlocals)).trans
    (reportDeclarations_gathers hbelow)
  obtain ⟨inner, hinner, hfound⟩ := ((walkPicture_gathers hwalk).trans hreported).trans
    (reportTypes_gathers (List.Subset.refl _) htypes)
  refine ⟨inner, hinner, ?_⟩
  simpa [mismatches] using hfound

/-- Among parameters whose names differ in more than their case, a name in small letters is the
exact name of a parameter if that one is declared so. -/
theorem exactTarget_eq {parameters : List Variable} (hnodup : (parameters.map Variable.key).Nodup)
    {target : Variable} (htarget : target ∈ parameters) {m : Mapping}
    (hname : baseName m.target = .ok (some target.key)) :
    exactTarget parameters m = .ok (if target.name = target.key then some target else none) := by
  have honly : ∀ v ∈ parameters, v.name = target.key → v = target := by
    intro v hv hexact
    refine inj_on_of_nodup_map hnodup hv htarget ?_
    rw [Variable.key, hexact, Variable.key, Text.lower_lower]
  have hfind : parameters.reverse.find? (fun v => v.name == target.key) =
      if target.name = target.key then some target else none := by
    split
    · next hsmall =>
      have hnames : (parameters.reverse.map Variable.name).Nodup := by
        rw [map_reverse, nodup_reverse]
        exact .of_map Text.lower (by rwa [map_map])
      exact (find?_key_eq_some_iff hnames).mpr ⟨mem_reverse.mpr htarget, hsmall⟩
    · next hcapital =>
      refine List.find?_eq_none.mpr fun v hv hexact => hcapital ?_
      have hexact : v.name = target.key := by simpa using hexact
      rw [← honly v (mem_reverse.mp hv) hexact, hexact,
        honly v (mem_reverse.mp hv) hexact]
  unfold exactTarget
  rw [hname]
  exact congrArg Except.ok hfind

/-- The issues on connections between different string types are those of the modules below the
picture, connection by connection, and others from inside module types. A connection of a string
parameter to a string variable has exactly one issue, at the path of its module, if the types differ
and the parameter is declared in small letters; otherwise it has none. -/
theorem string_mismatches_reported {marks : Marks} {issues : List Issue}
    (hrun : (analyze p marks).1 = .ok issues) :
    (∃ inner : Multiset Issue, (∀ issue ∈ inner, InType p issue) ∧
      mismatches issues = ↑((junctions p).flatMap (Junction.issues p)) + inner) ∧
      ∀ j ∈ junctions p, (j.parameters.map Variable.key).Nodup → ∀ m ∈ j.mappings,
        m.isGlobal.holds = false → ∀ target ∈ j.parameters,
          baseName m.target = .ok (some target.key) → isStringType target.type = true →
          ∀ source, sourceOf p j.scope m = .ok (some source) → isStringType source.type = true →
            j.issue? p m =
              if target.name = target.key ∧ target.type ≠ source.type then
                some (mismatch target source j.path)
              else none := by
  refine ⟨analyze_gathers hrun, ?_⟩
  intro j _ hnodup m _ hglobal target htarget hname hstring source hsource hsourceString
  rw [Junction.issue?, exactTarget_eq hnodup htarget hname]
  by_cases hsmall : target.name = target.key
  · simp [hsmall, mismatchOf?, hsource, hglobal, mismatched, hstring, hsourceString]
  · simp [hsmall, mismatchOf?]

end Walks

/-! A picture with a variable `Name`. The parameters `label` and `Title` of a module in a frame are
connected to it, and the parameter of an instance inside that module to `label`. -/

def variableOfType (id : Nat) (name : String) (type : SimpleType) : Variable :=
  { integerVariable id name with type := .simple type }

def tagType : TypeDef :=
  ⟨"Display", .null, [variableOfType 3 "tag" .tagstring], [], [], .null, .null, [], .null,
    .bool false, .null, .null, []⟩

def screenUnit : SingleInfo :=
  ⟨plainHeader "Unit", .null, .null,
    [variableOfType 1 "label" .identstring, variableOfType 2 "Title" .identstring], [], .null,
    [plainMapping "LABEL" "Name", plainMapping "Title" "Name"], []⟩

def screenPicture : Picture :=
  ⟨plainHeader "Plant", .text "BasePicture", .null, [], [tagType],
    [variableOfType 0 "Name" .string],
    [.frame area [.single screenUnit
      [.typed ⟨plainHeader "Screen", "Display", [plainMapping "Tag" "Label"], []⟩]]],
    .null, .null, .null, .null, []⟩

def screenMarks : Marks :=
  ⟨#[{}, {}, {}, {}]⟩

def screenJunction : Junction :=
  ⟨["Plant", "Area", "Unit"], screenPicture.locals, screenUnit.parameters, screenUnit.mappings⟩

theorem screen_returns : ∃ issues, (analyze screenPicture screenMarks).1 = .ok issues ∧
    issues.map (fun issue => (issue.kind, issue.subject.id)) =
      [(.stringMismatch, 3), (.stringMismatch, 1), (.unused, 0), (.unused, 1), (.unused, 2),
        (.unused, 3)] :=
  analyze_returns (by decide)

theorem label_mismatch_reported : ∃ issues, (analyze screenPicture screenMarks).1 = .ok issues ∧
    (∃ inner : Multiset Issue, (∀ issue ∈ inner, InType screenPicture issue) ∧
      mismatches issues = ↑((junctions screenPicture).flatMap (Junction.issues screenPicture)) +
        inner) ∧
    screenJunction ∈ junctions screenPicture ∧
    screenJunction.issue? screenPicture (plainMapping "LABEL" "Name") =
      some (mismatch (variableOfType 1 "label" .identstring) (variableOfType 0 "Name" .string)
        ["Plant", "Area", "Unit"]) := by
  have hmem : screenJunction ∈ junctions screenPicture :=
    mem_append_left _ (mem_append_left _ (mem_append_right _
      (mem_singleton_self _)))
  obtain ⟨issues, hrun, -⟩ := screen_returns
  obtain ⟨hgathered, hissue⟩ := string_mismatches_reported hrun
  refine ⟨issues, hrun, hgathered, hmem, ?_⟩
  have hlabel := hissue screenJunction hmem (by decide) (plainMapping "LABEL" "Name")
    mem_cons_self rfl (variableOfType 1 "label" .identstring) mem_cons_self rfl rfl
    (variableOfType 0 "Name" .string) rfl rfl
  rwa [if_pos (by decide)] at hlabel

/-- `Title` is a parameter of the type of `label`, connected to the same variable, and only the
connection of `label` is reported. -/
theorem title_mismatch_not_reported :
    mismatched (variableOfType 2 "Title" .identstring) (variableOfType 0 "Name" .string) = true ∧
      screenJunction.issue? screenPicture (plainMapping "Title" "Name") = none ∧
      ∃ issues, (analyze screenPicture screenMarks).1 = .ok issues ∧
        (.stringMismatch, 2) ∉ issues.map fun issue => (issue.kind, issue.subject.id) := by
  obtain ⟨issues, hrun, hfound⟩ := screen_returns
  refine ⟨rfl, rfl, issues, hrun, ?_⟩
  rw [hfound]
  decide

end SattLine.Usage
