import SattLine.Proofs.Usage.Classified

/-!
Marks that come after the report. The variables of the picture and of its modules are reported
before the module types are walked, and those of a type before the types behind it are. Main
statement: an issue still agrees with the marks in the end, unless a module type looks the variable
up in the whole program and accesses it in the way that the issue denies.
-/

namespace SattLine

open List

/-- What a module type states of itself. -/
def TypeDef.findings (type : TypeDef) : List Usage.Finding :=
  Usage.definition type.definition ++ Usage.code type.code ++
    Usage.group type.groupConn type.groupGlobal

namespace Usage

open Walk

/-- `AsksFor name access modules`: one of the modules, or one inside them, looks the name up in the
whole program for that access. A connected variable may be accessed as the module does with its
parameter, and a global one is read. -/
inductive AsksFor (name : String) (access : Access) (modules : List Module) : Prop
  | stated {m reach} (hm : Module.Inside modules m) (hreach : reach ≠ .scope)
      (h : .ok ⟨name, access, reach⟩ ∈ m.findings)
  | connected {m c} (hm : Module.Inside modules m) (hc : c ∈ m.mappings)
      (hname : baseName c.source = .ok (some name))
      (haccess : c.isGlobal.holds = true → access = .read)

/-- The same of a module type with all modules in it. -/
inductive TypeAsksFor (name : String) (access : Access) (type : TypeDef) : Prop
  | stated {reach} (hreach : reach ≠ .scope) (h : .ok ⟨name, access, reach⟩ ∈ type.findings)
  | inside (h : AsksFor name access type.submodules)

/-- `Mentioned p v access`: a module type of the picture's own file, or one that has instances in
it, looks up the variable in the whole program for that access. -/
def Mentioned (p : Picture) (v : Variable) (access : Access) : Prop :=
  ∃ type ∈ p.types, p.isOwnFile type.originFile = .ok true ∧
    ∃ inner, Relation.ReflTransGen p.Instantiates type inner ∧
      ∃ name, TypeAsksFor name access inner ∧ p.find? name = some v

/-- Only allowed uses are added, and what is remembered of module types is kept. -/
structure Only (allowed : Variable → Access → Prop) (s s' : State) : Prop where
  marks : ∀ v access, s'.marks.Has v access →
    s.marks.Has v access ∨ ∃ w, w.id = v.id ∧ allowed w access
  known : s.typeUse.map Prod.fst ⊆ s'.typeUse.map Prod.fst

namespace Only

variable {allowed : Variable → Access → Prop} {a s s' : State}

theorem refl (s : State) : Only allowed s s :=
  ⟨fun _ _ h => .inl h, fun _ h => h⟩

theorem trans (hfirst : Only allowed a s) (hrest : Only allowed s s') : Only allowed a s' := by
  refine ⟨fun v access h => ?_, fun _ h => hrest.known (hfirst.known h)⟩
  rcases hrest.marks v access h with h | h
  · exact hfirst.marks v access h
  · exact .inr h

theorem mono {more : Variable → Access → Prop} (h : Only allowed s s')
    (hmore : ∀ v access, allowed v access → more v access) : Only more s s' := by
  refine ⟨fun v access hv => ?_, h.known⟩
  rcases h.marks v access hv with hv | ⟨w, hid, hw⟩
  · exact .inl hv
  · exact .inr ⟨w, hid, hmore w access hw⟩

end Only

/-- The same of states in which these module types are known. -/
def OnlyKnowing (known : List String) (allowed : Variable → Access → Prop) (s s' : State) : Prop :=
  known ⊆ s.typeUse.map Prod.fst → Only allowed s s'

section Knowing

variable {known : List String} {allowed : Variable → Access → Prop}

theorem onlyKnowing_chains : Chains (OnlyKnowing known allowed) where
  refl s _ := .refl s
  trans hab hbc hknown := (hab hknown).trans (hbc (List.Subset.trans hknown (hab hknown).known))

theorem onlyKnowing_reporting : Reporting (OnlyKnowing known allowed) where
  toChains := onlyKnowing_chains
  report _ _ _ _ _ := ⟨fun _ _ h => .inl h, fun _ h => h⟩

theorem onlyKnowing_linking : Linking (fun _ => True) (OnlyKnowing known allowed) where
  toChains := onlyKnowing_chains
  link _ _ _ _ _ := ⟨fun _ _ h => .inl h, fun _ h => h⟩

theorem mark_only {v : Variable} {access : Access} {path : Path} (hv : allowed v access) :
    (mark v access path).Keeps (OnlyKnowing known allowed) := by
  refine keeps_modify fun s _ => ⟨fun w other hw => ?_, fun _ h => h⟩
  rw [Marks.Has, Marks.get_note] at hw
  split at hw
  · rename_i hsame
    rcases has_note_iff.mp hw with hw | rfl
    · exact .inl hw
    · exact .inr ⟨v, hsame.1, hv⟩
  · exact .inl hw

end Knowing

section Lookup

variable {p : Picture} {scope : List Variable} {v : Variable}

theorem find?_mem {name : String} (h : Variable.find? scope name = some v) : v ∈ scope :=
  mem_reverse.mp (mem_of_find?_eq_some h)

/-- An occurrence means a variable in scope or one that is found in the whole program. -/
theorem resolve_cases {o : Occurrence} (h : resolve p scope o = some v) :
    v ∈ scope ∨ o.reach ≠ .scope ∧ p.find? o.name = some v := by
  unfold resolve at h
  split at h
  · exact .inl (find?_mem h)
  · rename_i hreach
    exact .inr ⟨by simp [hreach], h⟩
  · rename_i hreach
    split at h
    · rename_i hfind
      exact .inl (find?_mem (hfind.trans h))
    · exact .inr ⟨by simp [hreach], h⟩

theorem sourceOf_cases {c : Mapping} (h : sourceOf p scope c = .ok (some v)) :
    v ∈ scope ∨ ∃ name, baseName c.source = .ok (some name) ∧ p.find? name = some v := by
  unfold sourceOf at h
  cases hname : baseName c.source with
  | error f =>
    rw [hname] at h
    cases h
  | ok name =>
    rw [hname] at h
    cases name with
    | none => cases h
    | some name =>
      simp only [bind, Except.bind, pure, Except.pure] at h
      split at h
      · split at h
        · rename_i hfind
          exact .inl (find?_mem (hfind.trans (Except.ok.inj h)))
        · exact .inr ⟨name, rfl, Except.ok.inj h⟩
      · exact .inr ⟨name, rfl, Except.ok.inj h⟩

end Lookup

section Modules

variable {p : Picture} {known : List String} {onType : TypeDef → Path → Walk Unit}
  {allowed : Variable → Access → Prop} {scope : List Variable} {modules : List Module}
  {path : Path}

/-- An occurrence marks a variable in scope or one that it asks for in the whole program. -/
theorem record_only {found : List Finding} (hscope : ∀ v ∈ scope, ∀ access, allowed v access)
    (hasked : ∀ o, .ok o ∈ found → o.reach ≠ .scope → ∀ v, p.find? o.name = some v →
      allowed v o.access) : (record p scope path found).Keeps (OnlyKnowing known allowed) := by
  refine onlyKnowing_chains.of_record fun o ho v hv => mark_only ?_
  rcases resolve_cases hv with hv | ⟨hreach, hfind⟩
  · exact hscope v hv o.access
  · exact hasked o ho hreach v hfind

/-- A walk over modules marks the variables in scope, those of the modules, and those that the
modules ask for in the whole program; and whatever the walks over the types of instances mark,
unless the type is known already. -/
theorem steps_only
    (hdeclared : ∀ v ∈ scope ++ Module.allVariablesOf modules, ∀ access, allowed v access)
    (hasked : ∀ ⦃name access v⦄, AsksFor name access modules → p.find? name = some v →
      allowed v access)
    (htypes : ∀ ⦃info type path s u s'⦄, Module.Inside modules (.typed info) →
      p.type? info.typeName = some type → known ⊆ s.typeUse.map Prod.fst →
        type.key ∉ s.typeUse.map Prod.fst → (onType type path).Ends s u s' → Only allowed s s') :
    Steps (OnlyKnowing known allowed) p onType scope modules where
  record m own path found hm hown hfound :=
    record_only (fun v hv => hdeclared v (hown hv)) fun o ho hreach v =>
      hasked (.stated hm hreach (hfound ho))
  passOn m own path use hm hown := by
    refine onlyKnowing_chains.of_passOnAll fun c hc => onlyKnowing_chains.of_passOn ?_ ?_
    · intro name v hname hfind
      exact mark_only (hasked (.connected hm hc hname fun _ => rfl) hfind)
    · intro v access hlocal hsource
      refine mark_only ?_
      rcases sourceOf_cases hsource with hv | ⟨key, hkey, hfind⟩
      · exact hdeclared v (hown hv) access
      · exact hasked (.connected hm hc hkey fun hglobal => absurd hglobal hlocal) hfind
  link _ _ _ _ := onlyKnowing_linking.of_link fun _ _ => trivial
  check _ _ _ _ := onlyKnowing_reporting.of_checkMappings
  types info type path hm htype s use s' huse hknown := by
    rcases typeUse_ends huse with ⟨-, rfl⟩ | ⟨hlookup, hwalk, -⟩
    · exact .refl _
    · refine htypes hm htype hknown (fun hmem => ?_) hwalk
      obtain ⟨⟨key, known⟩, hentry, rfl⟩ := mem_map.mp hmem
      obtain ⟨other, hother⟩ := lookup_of_mem hentry
      rw [hlookup] at hother
      cases hother

end Modules

/-- What the walk over a module type may mark: the variables of the type, those of the types of
instances in it that are not known, and those that any of these types asks for in the whole
program. -/
def Touched (p : Picture) (known : List String) (type : TypeDef) (v : Variable)
    (access : Access) : Prop :=
  ∃ inner, Relation.ReflTransGen p.Instantiates type inner ∧
    (v ∈ inner.allVariables ∧ (inner = type ∨ inner.key ∉ known) ∨
      ∃ name, TypeAsksFor name access inner ∧ p.find? name = some v)

section Types

variable {p : Picture}

variable {type : TypeDef} {path : Path}

theorem Touched.of_instance {known later : List String} {inner : TypeDef} {v : Variable}
    {access : Access} (hinstance : p.Instantiates type inner) (hlater : known ⊆ later)
    (hkey : inner.key ∉ later) (h : Touched p later inner v access) :
    Touched p known type v access := by
  obtain ⟨innermost, hway, hcase⟩ := h
  refine ⟨innermost, .head hinstance hway, hcase.imp_left ?_⟩
  rintro ⟨hv, rfl | hunknown⟩
  · exact ⟨hv, .inr fun hk => hkey (hlater hk)⟩
  · exact ⟨hv, .inr fun hk => hunknown (hlater hk)⟩

theorem walkType_only (depth : Nat) (known : List String) :
    (walkType p depth type path).Keeps (OnlyKnowing known (Touched p known type)) := by
  induction depth generalizing known type path with
  | zero => exact onlyKnowing_chains.of_pure
  | succ depth ih =>
    have hR : Chains (OnlyKnowing known (Touched p known type)) := onlyKnowing_chains
    have hown : ∀ v ∈ type.allVariables, ∀ access, Touched p known type v access :=
      fun v hv _ => ⟨type, .refl, .inl ⟨hv, .inl rfl⟩⟩
    have hrecord : ∀ {found : List Finding}, found ⊆ type.findings →
        (record p type.scope path found).Keeps (OnlyKnowing known (Touched p known type)) :=
      fun hfound => record_only (fun v hv => hown v (mem_append_left _ hv)) fun o ho hreach v hv =>
        ⟨type, .refl, .inr ⟨o.name, .stated hreach (hfound ho), hv⟩⟩
    have hsteps : Steps (OnlyKnowing known (Touched p known type)) p (walkType p depth) type.scope
        type.submodules := by
      refine steps_only hown ?_ ?_
      · intro name access v hasks hfind
        exact ⟨type, .refl, .inr ⟨name, .inside hasks, hfind⟩⟩
      · intro info inner path t u t' hm htype hlater hkey hwalk
        exact (ih _ hwalk (List.Subset.refl _)).mono fun v access =>
          .of_instance ⟨info, hm, htype⟩ hlater hkey
    refine hR.bind (hrecord (by simp [TypeDef.findings])) fun _ => ?_
    refine hR.bind (hrecord (by simp [TypeDef.findings])) fun _ => ?_
    refine hR.bind (hsteps.walkModules hR) fun _ => ?_
    refine hR.bind (hrecord (by simp [TypeDef.findings])) fun _ => hR.bind ?_ fun _ => ?_
    · exact keeps_modify fun s _ => ⟨fun _ _ h => .inl h, subset_cons_self _ _⟩
    · exact onlyKnowing_reporting.of_checkOwnMappings

theorem walkType_known {depth : Nat} {s s' : State} {u : Unit}
    (h : (walkType p (depth + 1) type path).Ends s u s') : type.key ∈ s'.typeUse.map Prod.fst := by
  simp only [walkType, ends_bind, ends_modify] at h
  obtain ⟨_, _, -, _, _, -, _, _, -, _, _, -, _, _, rfl, hmappings⟩ := h
  rw [issues_reporting.of_checkOwnMappings hmappings]
  exact mem_cons_self

end Types

/-- An issue agrees with the marks, but for accesses that a module type brings about by looking the
variable up in the whole program. -/
def Agrees (p : Picture) (marks : Marks) (issue : Issue) : Prop :=
  match issue.kind with
  | .unused => ∀ access, marks.Has issue.subject access → Mentioned p issue.subject access
  | .readOnly => marks.Has issue.subject .read ∧
      (marks.Has issue.subject .write → Mentioned p issue.subject .write)
  | .neverRead => marks.Has issue.subject .write ∧
      (marks.Has issue.subject .read → Mentioned p issue.subject .read)
  | .stringMismatch => True
  | .repeatedType => True

/-- A variable whose scope is not walked again: one outside the module types, or one of a type that
is known. -/
def Settled (p : Picture) (before : List TypeDef) (s : State) (v : Variable) : Prop :=
  v ∈ p.locals ++ Module.allVariablesOf p.submodules ∨
    ∃ type ∈ before, v ∈ type.scope ∧ type.key ∈ s.typeUse.map Prod.fst

section Report

variable {p : Picture} {v : Variable} {s s' : State} {u : Unit} {access : Access}

variable {marks : Marks} {issue : Issue} {type inner : TypeDef} {before after : List TypeDef}

theorem Agrees.later {later : Marks} (h : Agrees p marks issue) (hgrows : marks.Grows later)
    (honly : ∀ access, later.Has issue.subject access →
      marks.Has issue.subject access ∨ Mentioned p issue.subject access) :
    Agrees p later issue := by
  unfold Agrees at h ⊢
  split at h
  · intro access haccess
    exact (honly access haccess).elim (h access) id
  · refine ⟨hgrows.keeps _ _ h.1, fun haccess => ?_⟩
    exact (honly .write haccess).elim h.2 id
  · refine ⟨hgrows.keeps _ _ h.1, fun haccess => ?_⟩
    exact (honly .read haccess).elim h.2 id
  · trivial
  · trivial

theorem agrees_issueOf {unread : Bool} {d : Declaration} (h : issueOf marks unread d = some issue) :
    Agrees p marks issue := by
  simp only [issueOf] at h
  split_ifs at h with hunused _ hconst hwritten
  · cases h
    intro access haccess
    have hused : (marks.get d.declared).isUnused = false := haccess.not_isUnused
    rw [hused] at hunused
    cases hunused
  · cases h
    simp only [couldBeConst, Usage.isReadOnly, Bool.and_eq_true, Bool.not_eq_true'] at hconst
    refine ⟨hconst.1.1.1, fun haccess => ?_⟩
    have hwritten : (marks.get d.declared).written = true := haccess
    rw [hconst.1.1.2] at hwritten
    cases hwritten
  · cases h
    simp only [Usage.isWriteOnly, Bool.and_eq_true, Bool.not_eq_true'] at hwritten
    refine ⟨hwritten.2.1, fun haccess => ?_⟩
    have hread : (marks.get d.declared).read = true := haccess
    rw [hwritten.2.2] at hread
    cases hread

theorem mem_allVariables_of_type (ht : type ∈ p.types) (hv : v ∈ type.allVariables) :
    v ∈ p.allVariables :=
  mem_append_left _ (mem_append_left _ (mem_flatMap.mpr ⟨type, ht, hv⟩))

theorem mem_allVariables_of_outside
    (hv : v ∈ p.locals ++ Module.allVariablesOf p.submodules) : v ∈ p.allVariables := by
  rw [Picture.allVariables, append_assoc]
  exact mem_append_right _ hv

theorem mem_allVariables_of_findable (h : v ∈ p.findable) : v ∈ p.allVariables := by
  rw [Picture.findable, map_append] at h
  rcases mem_append.mp h with h | h
  · apply mem_allVariables_of_outside
    rw [Picture.moduleDeclarations, map_append, Module.declarationsOf_declared] at h
    simpa [Declaration.localsAt, Function.comp_def] using h
  · obtain ⟨d, hd, rfl⟩ := mem_map.mp h
    obtain ⟨type, ht, hd⟩ := mem_flatMap.mp hd
    exact mem_allVariables_of_type ht (declared_mem_allVariables hd)

/-- What is found in the whole program is one of its variables. -/
theorem mem_allVariables_of_find? {name : String} (h : p.find? name = some v) :
    v ∈ p.allVariables := by
  simp only [Picture.find?] at h
  split at h
  · cases h
  · split at h
    · rename_i hlocal
      cases h
      exact mem_allVariables_of_outside (mem_append_left _ (find?_mem hlocal))
    · exact mem_allVariables_of_findable (mem_of_find?_eq_some h)

theorem Settled.mem_allVariables (hsplit : p.types = before ++ after) (h : Settled p before s v) :
    v ∈ p.allVariables := by
  rcases h with hv | ⟨type, ht, hv, -⟩
  · exact mem_allVariables_of_outside hv
  · have hmem : type ∈ p.types := hsplit ▸ mem_append_left _ ht
    exact mem_allVariables_of_type hmem (mem_append_left _ hv)

theorem instantiated_mem (ht : type ∈ p.types)
    (h : Relation.ReflTransGen p.Instantiates type inner) : inner ∈ p.types := by
  induction h with
  | refl => exact ht
  | tail _ hstep _ =>
    obtain ⟨info, -, htype⟩ := hstep
    exact Picture.type?_mem htype

/-- A settled variable is none of a type that is walked. -/
theorem Settled.id_ne (hids : (p.allVariables.map Variable.id).Nodup)
    (hsplit : p.types = before ++ type :: after) (h : Settled p before s v)
    (hinner : inner ∈ p.types) {w : Variable} (hw : w ∈ inner.allVariables)
    (hnew : inner = type ∨ inner.key ∉ s.typeUse.map Prod.fst) : w.id ≠ v.id := by
  rcases h with hv | ⟨known, hknown, hv, hkey⟩
  · obtain ⟨first, rest, hinnerSplit⟩ := append_of_mem hinner
    exact (((ids_apart hids hinnerSplit).2 w hw).1 v hv).symm
  · obtain ⟨first, rest, rfl⟩ := append_of_mem hknown
    have hknownSplit : p.types = first ++ known :: (rest ++ type :: after) := by
      rw [hsplit, append_assoc, cons_append]
    have happart := ((ids_apart hids hknownSplit).2 v (mem_append_left _ hv)).2
    by_cases hsame : inner = known
    · subst hsame
      rcases hnew with rfl | hunknown
      · refine absurd rfl (happart inner ?_ v (mem_append_left _ hv))
        simp
      · exact absurd hkey hunknown
    · refine happart inner ?_ w hw
      rw [hknownSplit] at hinner
      simpa [hsame] using hinner

/-- The walk over a further module type marks a settled variable only by looking it up in the whole
program. -/
theorem Settled.walkType (hids : (p.allVariables.map Variable.id).Nodup)
    (hsplit : p.types = before ++ type :: after) (hown : p.isOwnFile type.originFile = .ok true)
    (h : Settled p before s v) {depth : Nat} {path : Path}
    (hwalk : (walkType p depth type path).Ends s u s') (hv : s'.marks.Has v access) :
    s.marks.Has v access ∨ Mentioned p v access := by
  have ht : type ∈ p.types := by simp [hsplit]
  rcases (walkType_only depth _ hwalk (List.Subset.refl _)).marks v access hv with hv | ⟨w, hid, inner, hway, hcase⟩
  · exact .inl hv
  · rcases hcase with ⟨hw, hinner⟩ | ⟨name, hasks, hfind⟩
    · exact absurd hid (h.id_ne hids hsplit (instantiated_mem ht hway) hw hinner)
    · have hsame : w = v := inj_on_of_nodup_map hids (mem_allVariables_of_find? hfind)
        (h.mem_allVariables hsplit) hid
      exact .inr ⟨type, ht, hown, inner, hway, name, hasks, hsame ▸ hfind⟩

theorem reportTypes_agrees (hids : (p.allVariables.map Variable.id).Nodup) {types : List TypeDef}
    (hsplit : p.types = before ++ types) (h : (reportTypes p types).Ends s u s')
    (hs : ∀ issue ∈ useIssues s.issues, Settled p before s issue.subject ∧
      Agrees p s.marks issue) : ∀ issue ∈ useIssues s'.issues, Agrees p s'.marks issue := by
  induction types generalizing before s with
  | nil =>
    obtain ⟨-, rfl⟩ := ends_pure.mp h
    exact fun issue hissue => (hs issue hissue).2
  | cons type rest ih =>
    have hsplit' : p.types = (before ++ [type]) ++ rest := by simp [hsplit]
    have hwider : ∀ {t : State} {v : Variable}, Settled p before s v →
        s.typeUse.map Prod.fst ⊆ t.typeUse.map Prod.fst → Settled p (before ++ [type]) t v := by
      intro t v hv hkept
      refine hv.imp_right ?_
      rintro ⟨known, hknown, hscope, hkey⟩
      exact ⟨known, mem_append_left _ hknown, hscope, hkept hkey⟩
    rcases reportTypes_cons.mp h with ⟨-, h⟩ | ⟨hown, t, t', hwalk, hreport, h⟩
    · exact ih hsplit' h fun issue hissue =>
      ⟨hwider (hs issue hissue).1 (List.Subset.refl _), (hs issue hissue).2⟩
    · obtain ⟨hmarks, hmemo⟩ := reportDeclarations_keeps hreport
      refine ih hsplit' h fun issue hissue => ?_
      rw [reportDeclarations_issues hreport, walkType_silentOnUse hwalk] at hissue
      rw [hmarks]
      rcases mem_append.mp hissue with hold | hnew
      · obtain ⟨hsettled, hagrees⟩ := hs issue hold
        refine ⟨hwider hsettled (hmemo ▸ (walkType_only _ _ hwalk (List.Subset.refl _)).known), ?_⟩
        exact hagrees.later (walkType_grows _ hwalk).marks fun access =>
          hsettled.walkType hids hsplit hown hwalk
      · obtain ⟨d, hd, hof⟩ := mem_filterMap.mp hnew
        refine ⟨.inr ⟨type, by simp, ?_, ?_⟩, agrees_issueOf hof⟩
        · rw [issueOf_subject hof, ← ownDeclarations_declared type [p.header.name]]
          exact mem_map_of_mem hd
        · obtain ⟨depth, hdepth⟩ : ∃ depth, p.types.length = depth + 1 := by
            rw [hsplit]
            exact ⟨before.length + rest.length, by simp [Nat.add_assoc]⟩
          rw [hmemo]
          rw [hdepth] at hwalk
          exact walkType_known hwalk

/-- Every issue agrees with the marks in the end: what is called unused has no use, what is called
read only is read and not written, and what is called never read is written and not read, unless a
module type looks the variable up in the whole program for the access that the issue denies. -/
theorem issues_agree_unless_mentioned {value : Value} {start marks : Marks}
    (hread : value.toPicture.run start = .ok (p, marks)) {issues : List Issue}
    (hrun : (analyze p marks).1 = .ok issues) :
    ∀ issue ∈ issues, Agrees p (analyze p marks).2 issue := by
  have hids := (Value.toPicture_declares value hread).nodup
  obtain ⟨s, s', hmodules, htypes, rfl, hmarks⟩ := analyze_stages hrun
  obtain ⟨hlinked, hreported⟩ := reportModules_issues hmodules
  have hstart : ∀ issue ∈ useIssues s.issues, Settled p [] s issue.subject ∧
      Agrees p s.marks issue := by
    intro issue hissue
    rw [hreported] at hissue
    rw [hlinked]
    rcases mem_append.mp hissue with hissue | hissue
    · obtain ⟨d, hd, hof⟩ := mem_filterMap.mp hissue
      obtain ⟨w, hw, rfl⟩ := mem_map.mp hd
      refine ⟨.inl ?_, agrees_issueOf hof⟩
      rw [issueOf_subject hof]
      exact mem_append_left _ hw
    · obtain ⟨d, hd, hof⟩ := mem_filterMap.mp hissue
      refine ⟨.inl ?_, agrees_issueOf hof⟩
      rw [issueOf_subject hof, ← Module.declarationsOf_declared [p.header.name] p.submodules]
      exact mem_append_right _ (mem_map_of_mem hd)
  intro issue hissue
  rw [hmarks]
  by_cases hkind : issue.kind.isOfUse = true
  · exact reportTypes_agrees hids rfl htypes hstart issue (mem_filter.mpr ⟨hissue, hkind⟩)
  · unfold Agrees
    cases hcase : issue.kind <;> simp_all [IssueKind.isOfUse]

end Report

/-! A picture with a variable `Tank` and a module type `Pump` without instances, in which `Tank` is
the global source of a connection. -/

def globalConnection (target source : String) : Value :=
  .element .parameterMapping [reference target, .null, .bool false, .bool true, reference source,
    .null]

def mentioningValue : Value :=
  .element .basePicture [headerNamed "Plant", .text "BasePicture", .null, .list [],
    .list [.element .typeDef [.text "Pump", .null, .list [], .list [],
      .list [.element .typeInstance [headerNamed "Inlet", .text "Valve",
        .list [globalConnection "Level" "Tank"]]],
      .null, .null, .list [], .null, .bool false, .null, .null]],
    .list [integerNamed "Tank"], .list [], .null, .null, .null, .null, .null]

def inlet : InstanceInfo :=
  ⟨plainHeader "Inlet", "Valve",
    [⟨reference "Level", .null, .bool false, .bool true, reference "Tank", .null⟩], []⟩

def mentioningPicture : Picture :=
  ⟨plainHeader "Plant", .text "BasePicture", .null, [],
    [⟨"Pump", .null, [], [], [.typed inlet], .null, .null, [], .null, .bool false, .null, .null,
      []⟩],
    [integerVariable 0 "Tank"], [], .null, .null, .null, .null, []⟩

def mentioningMarks : Marks :=
  ⟨#[{}]⟩

theorem mentioning_read :
    mentioningValue.toPicture.run {} = .ok (mentioningPicture, mentioningMarks) := by
  rfl

theorem mentioning_returns : ∃ issues, (analyze mentioningPicture mentioningMarks).1 = .ok issues ∧
    issues.map (fun issue => (issue.kind, issue.subject.id)) = [(.unused, 0)] :=
  analyze_returns (by decide)

theorem mentioning_agrees : ∃ issues, (analyze mentioningPicture mentioningMarks).1 = .ok issues ∧
    issues.map (fun issue => (issue.kind, issue.subject.id)) = [(.unused, 0)] ∧
    ∀ issue ∈ issues, Agrees mentioningPicture (analyze mentioningPicture mentioningMarks).2
      issue := by
  obtain ⟨issues, hrun, hissues⟩ := mentioning_returns
  exact ⟨issues, hrun, hissues, issues_agree_unless_mentioned mentioning_read hrun⟩

/-- `Tank` is called unused, and is marked as read when the analysis returns. -/
theorem tank_unused_and_read :
    (analyze mentioningPicture mentioningMarks).2.Has (integerVariable 0 "Tank") .read ∧
      ∃ issues, (analyze mentioningPicture mentioningMarks).1 = .ok issues ∧
        issues.map (fun issue => (issue.kind, issue.subject.id)) = [(.unused, 0)] := by
  refine ⟨?_, mentioning_returns⟩
  change ((analyze mentioningPicture mentioningMarks).2.get (integerVariable 0 "Tank")).read = true
  decide

end Usage

end SattLine
