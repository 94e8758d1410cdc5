import SattLine.Proofs.Usage.Classified

/-!
Programs of which one covers the other: they have the same declarations, modules and connections,
and whatever is found in a part of the one is also found in that part of the other. Two walks over
such programs are followed side by side. Main statement: all uses that the analysis of the covered
program marks are marked in the other, and what is called unused there is called unused here.
-/

namespace SattLine

open List

namespace Usage

/-- A use of this kind is marked and kept with its place. -/
structure Shows (usage : Usage) (access : Access) : Prop where
  has : usage.Has access
  noted : usage.Noted access

/-- The kinds of uses in one account are also in the other, which may keep other places. -/
structure Within (usage other : Usage) : Prop where
  has : ∀ access, usage.Has access → other.Has access
  noted : ∀ access, usage.Noted access → other.Noted access

namespace Within

variable {a b c : Usage} {access : Access}

theorem refl (a : Usage) : a.Within a :=
  ⟨fun _ h => h, fun _ h => h⟩

theorem trans (hab : a.Within b) (hbc : b.Within c) : a.Within c :=
  ⟨fun access h => hbc.has access (hab.has access h),
    fun access h => hbc.noted access (hab.noted access h)⟩

theorem shows (h : a.Within b) (ha : a.Shows access) : b.Shows access :=
  ⟨h.has access ha.has, h.noted access ha.noted⟩

theorem note (h : a.Within b) (hb : b.Shows access) (path : Path) :
    (a.note access path).Within b := by
  constructor
  · intro other hother
    rcases has_note_iff.mp hother with hold | rfl
    · exact h.has other hold
    · exact hb.has
  · intro other hother
    rcases noted_note_iff.mp hother with hold | rfl
    · exact h.noted other hold
    · exact hb.noted

theorem isUnused (h : a.Within b) (hb : b.isUnused = true) : a.isUnused = true := by
  by_contra ha
  have hread := h.has .read
  have hwrite := h.has .write
  simp only [Has] at hread hwrite
  simp only [Usage.isUnused, Bool.not_eq_true', Bool.or_eq_false_iff, not_and,
    Bool.not_eq_false] at ha hb
  cases hcase : a.read with
  | true => simp [hread hcase] at hb
  | false => simp [hwrite (ha hcase)] at hb

end Within

theorem shows_note (usage : Usage) (access : Access) (path : Path) :
    (usage.note access path).Shows access :=
  ⟨has_note _ _ _, noted_note_iff.mpr (.inr rfl)⟩

theorem within_note (usage : Usage) (access : Access) (path : Path) :
    usage.Within (usage.note access path) :=
  ⟨fun _ h => h.note _ _, fun _ h => noted_note_iff.mpr (.inl h)⟩

end Usage

namespace Marks

def Shows (marks : Marks) (v : Variable) (access : Access) : Prop :=
  (marks.get v).Shows access

/-- Marks of the same variables, with at least the same kinds of uses. -/
structure Within (marks other : Marks) : Prop where
  size_eq : other.entries.size = marks.entries.size
  get : ∀ v, (marks.get v).Within (other.get v)

variable {a b c : Marks} {v : Variable} {access : Access}

namespace Within

theorem refl (marks : Marks) : marks.Within marks :=
  ⟨rfl, fun _ => .refl _⟩

theorem trans (hab : a.Within b) (hbc : b.Within c) : a.Within c :=
  ⟨hbc.size_eq.trans hab.size_eq, fun v => (hab.get v).trans (hbc.get v)⟩

theorem shows (h : a.Within b) (ha : a.Shows v access) : b.Shows v access :=
  (h.get v).shows ha

theorem note (h : a.Within b) (hv : v.id < b.entries.size → b.Shows v access) (path : Path) :
    (a.note v access path).Within b := by
  refine ⟨by simp [Marks.note, h.size_eq], fun w => ?_⟩
  rw [get_note]
  split
  · rename_i hsame
    have hw : b.Shows w access := by
      rw [Shows, Marks.get, ← hsame.1]
      exact hv (h.size_eq ▸ hsame.2)
    exact (h.get w).note hw path
  · exact h.get w

end Within

theorem within_note (marks : Marks) (v : Variable) (access : Access) (path : Path) :
    marks.Within (marks.note v access path) := by
  refine ⟨by simp [note], fun w => ?_⟩
  rw [get_note]
  split
  · exact Usage.within_note _ _ _
  · exact .refl _

theorem shows_note (marks : Marks) (v : Variable) (access : Access) (path : Path)
    (hv : v.id < marks.entries.size) : (marks.note v access path).Shows v access := by
  rw [Shows, get_note, if_pos ⟨rfl, hv⟩]
  exact Usage.shows_note _ _ _

theorem within_noteAll (marks : Marks) (v : Variable) (places : List (Path × Access)) :
    marks.Within (marks.noteAll v places) := by
  induction places generalizing marks with
  | nil => exact .refl _
  | cons place rest ih => exact (within_note marks v place.2 place.1).trans (ih _)

theorem shows_noteAll {marks : Marks} {places : List (Path × Access)} {path : Path}
    (hv : v.id < marks.entries.size) (h : (path, access) ∈ places) :
    (marks.noteAll v places).Shows v access := by
  induction places generalizing marks with
  | nil => simp at h
  | cons place rest ih =>
    rcases mem_cons.mp h with rfl | hrest
    · exact (within_noteAll _ v rest).shows (shows_note marks v access path hv)
    · exact ih ((within_note marks v place.2 place.1).size_eq ▸ hv) hrest

theorem Within.noteAll (h : a.Within b) {places : List (Path × Access)}
    (hplaces : ∀ place ∈ places, v.id < b.entries.size → b.Shows v place.2) :
    (a.noteAll v places).Within b := by
  induction places generalizing a with
  | nil => exact h
  | cons place rest ih =>
    have hfirst := h.note (hplaces place mem_cons_self) place.1
    exact ih hfirst fun other ho => hplaces other (mem_cons_of_mem _ ho)

end Marks

namespace Usage

/-- Passing on the uses of sources by the same links keeps one account within the other. -/
theorem replay_within {marks other : Marks} (h : marks.Within other)
    (links : List (Variable × Variable)) : (replay links marks).Within (replay links other) := by
  induction links generalizing marks other with
  | nil => exact h
  | cons link rest ih =>
    obtain ⟨source, target⟩ := link
    rw [replay_cons, replay_cons]
    apply ih
    have hgrown := h.trans (Marks.within_noteAll other target (other.get source).places)
    refine hgrown.noteAll fun place hplace hsize => ?_
    obtain ⟨path, hpath⟩ := (h.get source).noted place.2 ⟨place.1, hplace⟩
    exact Marks.shows_noteAll ((Marks.within_noteAll _ _ _).size_eq ▸ hsize) hpath

/-- Occurrences that access the same variable in the same way, wherever they stand. -/
structure Occurrence.Alike (o o' : Occurrence) : Prop where
  access : o'.access = o.access
  resolve : ∀ p scope, resolve p scope o' = resolve p scope o

theorem Occurrence.Alike.refl (o : Occurrence) : o.Alike o :=
  ⟨rfl, fun _ _ => rfl⟩

/-- All that is found in one place is found in the other. -/
def Covered (found more : List Finding) : Prop :=
  ∀ o, .ok o ∈ found → ∃ o', .ok o' ∈ more ∧ o.Alike o'

theorem Covered.of_subset {found more : List Finding} (h : found ⊆ more) : Covered found more :=
  fun o ho => ⟨o, h ho, .refl o⟩

theorem Covered.refl (found : List Finding) : Covered found found :=
  .of_subset fun _ h => h

theorem Covered.append {found more rest others : List Finding} (h : Covered found more)
    (hrest : Covered rest others) : Covered (found ++ rest) (more ++ others) := by
  intro o ho
  rcases mem_append.mp ho with ho | ho
  · obtain ⟨o', ho', halike⟩ := h o ho
    exact ⟨o', mem_append_left _ ho', halike⟩
  · obtain ⟨o', ho', halike⟩ := hrest o ho
    exact ⟨o', mem_append_right _ ho', halike⟩

end Usage

/-- Connections of the same parameter to the same variable. -/
structure Mapping.Alike (m m' : Mapping) : Prop where
  isGlobal : m'.isGlobal.holds = m.isGlobal.holds
  source : Usage.baseName m'.source = Usage.baseName m.source
  isReference : Usage.isReference m'.source = Usage.isReference m.source
  target : Usage.baseName m'.target = Usage.baseName m.target

theorem Mapping.Alike.refl (m : Mapping) : m.Alike m :=
  ⟨rfl, rfl, rfl, rfl⟩

structure Header.Covered (h h' : Header) : Prop where
  name : h'.name = h.name
  findings : Usage.Covered (Usage.header h) (Usage.header h')

structure SingleInfo.Covered (info info' : SingleInfo) : Prop where
  header : info.header.Covered info'.header
  definition : Usage.Covered (Usage.definition info.definition) (Usage.definition info'.definition)
  code : Usage.Covered (Usage.code info.code) (Usage.code info'.code)
  parameters : info'.parameters = info.parameters
  locals : info'.locals = info.locals
  mappings : List.Forall₂ Mapping.Alike info.mappings info'.mappings

structure FrameInfo.Covered (info info' : FrameInfo) : Prop where
  header : info.header.Covered info'.header
  definition : Usage.Covered (Usage.definition info.definition) (Usage.definition info'.definition)
  code : Usage.Covered (Usage.code info.code) (Usage.code info'.code)

structure InstanceInfo.Covered (info info' : InstanceInfo) : Prop where
  header : info.header.Covered info'.header
  typeName : info'.typeName = info.typeName
  mappings : List.Forall₂ Mapping.Alike info.mappings info'.mappings

/-- Modules of which each covers the one in its place, down to the innermost. -/
inductive Module.Covered : List Module → List Module → Prop
  | nil : Module.Covered [] []
  | single {info info' inner inner' rest rest'} (hinfo : info.Covered info')
      (hinner : Module.Covered inner inner') (hrest : Module.Covered rest rest') :
      Module.Covered (.single info inner :: rest) (.single info' inner' :: rest')
  | frame {info info' inner inner' rest rest'} (hinfo : info.Covered info')
      (hinner : Module.Covered inner inner') (hrest : Module.Covered rest rest') :
      Module.Covered (.frame info inner :: rest) (.frame info' inner' :: rest')
  | typed {info info' rest rest'} (hinfo : info.Covered info')
      (hrest : Module.Covered rest rest') :
      Module.Covered (.typed info :: rest) (.typed info' :: rest')
  | stray {rest rest'} (value : Value) (hrest : Module.Covered rest rest') :
      Module.Covered (.stray value :: rest) (.stray value :: rest')

structure TypeDef.Covered (type type' : TypeDef) : Prop where
  name : type'.name = type.name
  parameters : type'.parameters = type.parameters
  locals : type'.locals = type.locals
  submodules : Module.Covered type.submodules type'.submodules
  definition : Usage.Covered (Usage.definition type.definition) (Usage.definition type'.definition)
  code : Usage.Covered (Usage.code type.code) (Usage.code type'.code)
  mappings : List.Forall₂ Mapping.Alike type.mappings type'.mappings
  group : Usage.Covered (Usage.group type.groupConn type.groupGlobal)
    (Usage.group type'.groupConn type'.groupGlobal)
  originFile : type'.originFile = type.originFile

/-- The second program has all that the first one has, and only finds more in its parts. -/
structure Picture.Covered (p p' : Picture) : Prop where
  header : p.header.Covered p'.header
  types : List.Forall₂ TypeDef.Covered p.types p'.types
  locals : p'.locals = p.locals
  submodules : Module.Covered p.submodules p'.submodules
  definition : Usage.Covered (Usage.definition p.definition) (Usage.definition p'.definition)
  code : Usage.Covered (Usage.code p.code) (Usage.code p'.code)
  originFile : p'.originFile = p.originFile

theorem Header.Covered.refl (h : Header) : h.Covered h :=
  ⟨rfl, .refl _⟩

theorem Mapping.Alike.forall₂_refl (cs : List Mapping) : List.Forall₂ Mapping.Alike cs cs :=
  forall₂_same.mpr fun c _ => .refl c

theorem InstanceInfo.Covered.refl (info : InstanceInfo) : info.Covered info :=
  ⟨.refl _, rfl, Mapping.Alike.forall₂_refl _⟩

theorem SingleInfo.Covered.scope {info info' : SingleInfo} (h : info.Covered info') :
    info'.scope = info.scope := by
  rw [SingleInfo.scope, h.parameters, h.locals, SingleInfo.scope]

namespace TypeDef.Covered

variable {type type' : TypeDef}

theorem scope (h : type.Covered type') : type'.scope = type.scope := by
  rw [TypeDef.scope, h.parameters, h.locals, TypeDef.scope]

theorem key (h : type.Covered type') : type'.key = type.key := by
  rw [TypeDef.key, h.name, TypeDef.key]

theorem label (h : type.Covered type') : type'.label = type.label := by
  rw [TypeDef.label, h.name, TypeDef.label]

theorem ownDeclarations (h : type.Covered type') (path : Path) :
    type'.ownDeclarations path = type.ownDeclarations path := by
  simp only [TypeDef.ownDeclarations, h.label, h.parameters, h.locals]

end TypeDef.Covered

theorem Module.Covered.declarationsOf {modules modules' : List Module}
    (h : Module.Covered modules modules') (path : Path) :
    Module.declarationsOf path modules' = Module.declarationsOf path modules := by
  induction h generalizing path with
  | nil => rfl
  | single hinfo _ _ hinner hrest =>
    simp only [Module.declarationsOf, Module.declarations, hinfo.header.name, hinfo.parameters,
      hinfo.locals, hinner, hrest]
  | frame hinfo _ _ hinner hrest =>
    simp only [Module.declarationsOf, Module.declarations, hinfo.header.name, hinner, hrest]
  | typed _ _ hrest | stray _ _ hrest =>
    simp only [Module.declarationsOf, Module.declarations, hrest]

namespace Picture.Covered

variable {p p' : Picture}

theorem findable (h : p.Covered p') : p'.findable = p.findable := by
  have htypes : p'.types.flatMap (TypeDef.ownDeclarations []) =
      p.types.flatMap (TypeDef.ownDeclarations []) := by
    have hall := h.types
    generalize p.types = types at hall
    generalize p'.types = types' at hall
    induction hall with
    | nil => rfl
    | cons htype _ ih => rw [flatMap_cons, flatMap_cons, htype.ownDeclarations, ih]
  simp only [Picture.findable, Picture.moduleDeclarations, h.locals,
    h.submodules.declarationsOf, htypes]

theorem find? (h : p.Covered p') (name : String) : p'.find? name = p.find? name := by
  rw [Picture.find?, h.locals, h.findable, Picture.find?]

theorem resolve (h : p.Covered p') (scope : List Variable) (o : Usage.Occurrence) :
    Usage.resolve p' scope o = Usage.resolve p scope o := by
  simp only [Usage.resolve, h.find?]

theorem sourceOf (h : p.Covered p') (scope : List Variable) {m m' : Mapping} (hm : m.Alike m') :
    Usage.sourceOf p' scope m' = Usage.sourceOf p scope m := by
  simp only [Usage.sourceOf, hm.source, hm.isReference, h.find?]

/-- A name means module types in the same place of both programs. -/
theorem type? (h : p.Covered p') (name : String) :
    Option.Rel TypeDef.Covered (p.type? name) (p'.type? name) := by
  have hall := forall₂_reverse_iff.mpr h.types
  unfold Picture.type?
  generalize p.types.reverse = types at hall
  generalize p'.types.reverse = types' at hall
  induction hall with
  | nil => exact .none
  | cons htype _ ih =>
    simp only [List.find?_cons, htype.key]
    split
    · exact .some htype
    · exact ih

theorem isOwnFile (h : p.Covered p') (file : Value) : p'.isOwnFile file = p.isOwnFile file := by
  rw [Picture.isOwnFile, h.originFile, Picture.isOwnFile]

end Picture.Covered

theorem Mapping.Alike.scopeTarget {m m' : Mapping} (h : m.Alike m') (scope : List Variable) :
    Usage.scopeTarget scope m' = Usage.scopeTarget scope m := by
  simp only [Usage.scopeTarget, h.target]

namespace Usage

open Walk

/-- The parameters used in one account are used in the other. -/
structure ParameterUse.Within (use other : ParameterUse) : Prop where
  reads : use.reads ⊆ other.reads
  writes : use.writes ⊆ other.writes

theorem ParameterUse.Within.refl (use : ParameterUse) : use.Within use :=
  ⟨fun _ h => h, fun _ h => h⟩

theorem ParameterUse.ofMarks_within {marks other : Marks} (h : marks.Within other)
    (parameters : List Variable) :
    (ParameterUse.ofMarks marks parameters).Within (ParameterUse.ofMarks other parameters) := by
  constructor
  · refine map_subset _ fun v hv => ?_
    obtain ⟨hmem, hread⟩ := mem_filter.mp hv
    exact mem_filter.mpr ⟨hmem, (h.get v).has .read hread⟩
  · refine map_subset _ fun v hv => ?_
    obtain ⟨hmem, hwritten⟩ := mem_filter.mp hv
    exact mem_filter.mpr ⟨hmem, (h.get v).has .write hwritten⟩

theorem ParameterUse.Within.passedOn {use other : ParameterUse} (h : use.Within other)
    (target : Option String) : passedOn use target ⊆ passedOn other target := by
  cases target with
  | none => exact fun _ h => h
  | some name =>
    intro access haccess
    simp only [Usage.passedOn, mem_append, mem_ite_nil_right, contains_iff_mem]
      at haccess ⊢
    rcases haccess with ⟨hread, hkind⟩ | ⟨hwrite, hkind⟩
    · exact .inl ⟨h.reads hread, hkind⟩
    · exact .inr ⟨h.writes hwrite, hkind⟩

/-- The states of two walks of which the second has found at least as much as the first. -/
structure State.Within (s t : State) : Prop where
  marks : s.marks.Within t.marks
  typeUse : List.Forall₂ (fun known known' => known'.1 = known.1 ∧ known.2.Within known'.2)
    s.typeUse t.typeUse
  aliases : t.aliases = s.aliases

theorem marksWithin_closed : Closed (fun _ => True) fun s s' => s.marks.Within s'.marks where
  refl := fun _ => .refl _
  trans := .trans
  note _ _ _ _ := Marks.within_note _ _ _ _
  report _ _ _ _ := .refl _
  link _ _ _ _ := .refl _

theorem aliases_noting : Noting fun s s' => s'.aliases = s.aliases where
  refl _ := rfl
  trans hab hbc := hbc.trans hab
  note _ _ _ _ := rfl

section Steps

variable {p p' : Picture} {s s' t t' : State} {u u' : Unit} {path path' : Path}
  {scope : List Variable}

variable {v : Variable} {kinds : List Access} {access : Access} {other : Marks}
  {found : List Finding} {use use' : Option ParameterUse} {cs cs' : List Mapping}

theorem markAll_shows (h : (markAll v kinds path).Ends s u s') (hv : v.id < s.marks.entries.size)
    (haccess : access ∈ kinds) : s'.marks.Shows v access := by
  induction kinds generalizing s with
  | nil => simp at haccess
  | cons first rest ih =>
    simp only [markAll, mark, ends_bind, ends_modify] at h
    obtain ⟨_, _, rfl, hrest⟩ := h
    have hsize := (Marks.within_note s.marks v first path).size_eq
    rcases mem_cons.mp haccess with rfl | htail
    · exact (marksWithin_closed.of_markAll hrest).shows (Marks.shows_note _ v _ path hv)
    · exact ih hrest (hsize ▸ hv) htail

theorem markAll_within (h : (markAll v kinds path).Ends s u s') (hs : s.marks.Within other)
    (hkinds : ∀ access ∈ kinds, v.id < other.entries.size → other.Shows v access) :
    s'.marks.Within other := by
  induction kinds generalizing s with
  | nil =>
    obtain ⟨-, rfl⟩ := ends_pure.mp h
    exact hs
  | cons first rest ih =>
    simp only [markAll, mark, ends_bind, ends_modify] at h
    obtain ⟨_, _, rfl, hrest⟩ := h
    have hfirst := hs.note (hkinds first mem_cons_self) path
    exact ih hrest hfirst fun access ha => hkinds access (mem_cons_of_mem _ ha)

theorem record_shows {o : Occurrence} (h : (record p scope path found).Ends s u s')
    (ho : .ok o ∈ found) (hresolve : resolve p scope o = some v)
    (hv : v.id < s.marks.entries.size) : s'.marks.Shows v o.access := by
  induction found generalizing s with
  | nil => simp at ho
  | cons finding rest ih =>
    cases finding with
    | error problem => exact absurd h ends_throw
    | ok first =>
      cases hfirst : resolve p scope first with
      | none =>
        simp only [record, hfirst] at h
        rcases mem_cons.mp ho with heq | htail
        · cases heq
          rw [hresolve] at hfirst
          cases hfirst
        · exact ih h htail hv
      | some w =>
        simp only [record, hfirst, mark, ends_bind, ends_modify] at h
        obtain ⟨_, _, rfl, hrest⟩ := h
        have hsize := (Marks.within_note s.marks w first.access path).size_eq
        rcases mem_cons.mp ho with heq | htail
        · cases heq
          cases hresolve.symm.trans hfirst
          exact (marksWithin_closed.of_record hrest).shows (Marks.shows_note _ v _ path hv)
        · exact ih hrest htail (hsize ▸ hv)

theorem record_within (h : (record p scope path found).Ends s u s') (hs : s.marks.Within other)
    (hfound : ∀ o, .ok o ∈ found → ∀ v, resolve p scope o = some v →
      v.id < other.entries.size → other.Shows v o.access) : s'.marks.Within other := by
  induction found generalizing s with
  | nil =>
    obtain ⟨-, rfl⟩ := ends_pure.mp h
    exact hs
  | cons finding rest ih =>
    have hothers := fun o ho => hfound o (mem_cons_of_mem finding ho)
    cases finding with
    | error problem => exact absurd h ends_throw
    | ok o =>
      cases hresolve : resolve p scope o with
      | none =>
        simp only [record, hresolve] at h
        exact ih h hs hothers
      | some v =>
        simp only [record, hresolve, mark, ends_bind, ends_modify] at h
        obtain ⟨_, _, rfl, hrest⟩ := h
        exact ih hrest (hs.note (hfound o mem_cons_self v hresolve) path) hothers

/-- Steps that change only marks and issues keep the states of two walks in their relation. -/
theorem State.Within.advance (hst : s.Within t) (hmarks : s'.marks.Within t'.marks)
    (hs : s.GrowsQuietly s') (ht : t.GrowsQuietly t') (hlinks : s'.aliases = s.aliases)
    (hlinks' : t'.aliases = t.aliases) : s'.Within t' where
  marks := hmarks
  typeUse := by
    rw [hs.typeUse_eq, ht.typeUse_eq]
    exact hst.typeUse
  aliases := by rw [hlinks, hlinks', hst.aliases]

/-- Walks that only report keep the states in their relation. -/
theorem State.Within.report (hst : s.Within t) (hs : s' = { s with issues := s'.issues })
    (ht : t' = { t with issues := t'.issues }) : s'.Within t' := by
  rw [hs, ht]
  exact ⟨hst.marks, hst.typeUse, hst.aliases⟩

end Steps

/-- Two walks side by side: the second finds at least as much as the first, and their results are
related. -/
def Abreast {α β : Type} (R : α → β → Prop) (walk : Walk α) (walk' : Walk β) : Prop :=
  ∀ ⦃s s' t t' a b⦄, s.Within t → walk.Ends s a s' → walk'.Ends t b t' → R a b ∧ s'.Within t'

/-- The second walk finds at least as much as the first. -/
abbrev Follows (walk walk' : Walk Unit) : Prop :=
  Abreast (fun _ _ => True) walk walk'

section Abreast

variable {α β γ δ : Type} {R : α → β → Prop} {Q : γ → δ → Prop} {walk : Walk α} {walk' : Walk β}

theorem abreast_pure {a : α} {b : β} (h : R a b) : Abreast R (pure a) (pure b) := by
  intro s s' t t' _ _ hst hs ht
  obtain ⟨rfl, rfl⟩ := ends_pure.mp hs
  obtain ⟨rfl, rfl⟩ := ends_pure.mp ht
  exact ⟨h, hst⟩

theorem abreast_get : Abreast State.Within get get := by
  intro s s' t t' _ _ hst hs ht
  obtain ⟨rfl, rfl⟩ := ends_get.mp hs
  obtain ⟨rfl, rfl⟩ := ends_get.mp ht
  exact ⟨hst, hst⟩

theorem abreast_ofFault (given : Except Fault α) : Abreast Eq (ofFault given) (ofFault given) := by
  intro s s' t t' _ _ hst hs ht
  obtain ⟨ha, rfl⟩ := ends_ofFault.mp hs
  obtain ⟨hb, rfl⟩ := ends_ofFault.mp ht
  cases ha.symm.trans hb
  exact ⟨rfl, hst⟩

theorem Abreast.bind {next : α → Walk γ} {next' : β → Walk δ} (h : Abreast R walk walk')
    (hnext : ∀ a b, R a b → Abreast Q (next a) (next' b)) :
    Abreast Q (walk >>= next) (walk' >>= next') := by
  intro s s' t t' _ _ hst hs ht
  obtain ⟨_, _, hfirst, hrest⟩ := ends_bind.mp hs
  obtain ⟨_, _, hfirst', hrest'⟩ := ends_bind.mp ht
  obtain ⟨hresults, hbetween⟩ := h hst hfirst hfirst'
  exact hnext _ _ hresults hbetween hrest hrest'

theorem Abreast.andThen {first first' next next' : Walk Unit} (h : Follows first first')
    (hnext : Follows next next') :
    Follows (first >>= fun _ => next) (first' >>= fun _ => next') :=
  h.bind fun _ _ _ => hnext

end Abreast

section Modules

variable {p p' : Picture} {onType onType' : TypeDef → Path → Walk Unit} {path path' : Path}
  {scope : List Variable} {v : Variable} {use use' : Option ParameterUse} {cs cs' : List Mapping}

theorem follows_record (hp : p.Covered p') {found more : List Finding} (hfound : Covered found more) :
    Follows (record p scope path found) (record p' scope path' more) := by
  intro s s' t t' _ _ hst h h'
  refine ⟨trivial, hst.advance ?_ (record_grows h) (record_grows h') (aliases_noting.of_record h)
    (aliases_noting.of_record h')⟩
  have hgrown := marksWithin_closed.of_record h'
  refine record_within h (hst.marks.trans hgrown) fun o ho v hv hsize => ?_
  obtain ⟨o', ho', halike⟩ := hfound o ho
  rw [← halike.access]
  refine record_shows h' ho' ?_ (hgrown.size_eq ▸ hsize)
  rw [halike.resolve, hp.resolve, hv]

theorem follows_markAll {kinds more : List Access} (hkinds : kinds ⊆ more) :
    Follows (markAll v kinds path) (markAll v more path') := by
  intro s s' t t' _ _ hst h h'
  refine ⟨trivial, hst.advance ?_ (markAll_grows h) (markAll_grows h') (aliases_noting.of_markAll h)
    (aliases_noting.of_markAll h')⟩
  have hgrown := marksWithin_closed.of_markAll h'
  refine markAll_within h (hst.marks.trans hgrown) fun access haccess hsize => ?_
  exact markAll_shows h' (hgrown.size_eq ▸ hsize) (hkinds haccess)

/-- The use of a parameter is passed on to the same variable. -/
theorem follows_passOn (hp : p.Covered p') {m m' : Mapping} (hm : m.Alike m')
    (huse : Option.Rel ParameterUse.Within use use') :
    Follows (passOn p use scope path m) (passOn p' use' scope path' m') := by
  simp only [passOn, hm.source, hm.target, hm.isGlobal, hp.sourceOf scope hm]
  refine (abreast_ofFault _).bind ?_
  rintro name _ rfl
  refine (abreast_ofFault _).bind ?_
  rintro target _ rfl
  have hfind : name.bind p'.find? = name.bind p.find? := by
    cases name with
    | none => rfl
    | some name => exact hp.find? name
  rw [hfind]
  by_cases hglobal : m.isGlobal.holds = true
  · rw [if_pos hglobal, if_pos hglobal]
    cases name.bind p.find? with
    | none => exact abreast_pure trivial
    | some v => simpa [markAll] using @follows_markAll path path' v [.read] _ fun _ h => h
  · rw [if_neg hglobal, if_neg hglobal]
    refine (abreast_ofFault _).bind ?_
    rintro source _ rfl
    cases source with
    | none => exact abreast_pure trivial
    | some v =>
      cases huse with
      | none => exact follows_markAll fun _ h => h
      | some huse => exact follows_markAll (huse.passedOn target)

theorem follows_passOnAll (hp : p.Covered p') (hcs : List.Forall₂ Mapping.Alike cs cs')
    (huse : Option.Rel ParameterUse.Within use use') :
    Follows (passOnAll p use scope path cs) (passOnAll p' use' scope path' cs') := by
  induction hcs with
  | nil => exact abreast_pure trivial
  | cons hm _ ih => exact (follows_passOn hp hm huse).andThen ih

theorem follows_modify {f f' : State → State} (h : ∀ s t : State, s.Within t → (f s).Within (f' t)) :
    Follows (modify f) (modify f') := by
  intro s s' t t' _ _ hst hs ht
  rw [ends_modify.mp hs, ends_modify.mp ht]
  exact ⟨trivial, h s t hst⟩

/-- The same parameters are linked to the same variables. -/
theorem follows_link (hp : p.Covered p') {inner : List Variable}
    (hcs : List.Forall₂ Mapping.Alike cs cs') :
    Follows (link p inner scope cs) (link p' inner scope cs') := by
  induction hcs with
  | nil => exact abreast_pure trivial
  | cons hm _ ih =>
    simp only [link, hp.sourceOf scope hm, hm.scopeTarget inner]
    refine (abreast_ofFault _).bind ?_
    rintro source _ rfl
    refine (abreast_ofFault _).bind ?_
    rintro target _ rfl
    cases source with
    | none => exact ih
    | some source =>
      cases target with
      | none => exact ih
      | some target =>
        refine (follows_modify fun s t hst => ?_).andThen ih
        exact ⟨hst.marks, hst.typeUse, by simp only [hst.aliases]⟩

theorem follows_check {parameters parameters' : List Variable} :
    Follows (checkMappings p parameters scope path cs)
      (checkMappings p' parameters' scope path' cs') :=
  fun _ _ _ _ _ _ hst h h' => ⟨trivial, hst.report (issues_reporting.of_checkMappings h)
    (issues_reporting.of_checkMappings h')⟩

theorem lookup_within {entries entries' : List (String × ParameterUse)}
    (h : List.Forall₂ (fun known known' => known'.1 = known.1 ∧ known.2.Within known'.2)
      entries entries') (key : String) :
    Option.Rel ParameterUse.Within (entries.lookup key) (entries'.lookup key) := by
  induction h with
  | nil => exact .none
  | @cons known known' _ _ hknown _ ih =>
    obtain ⟨name, use⟩ := known
    obtain ⟨name', use'⟩ := known'
    obtain ⟨rfl, huse⟩ := hknown
    simp only [lookup_cons]
    split
    · exact .some huse
    · exact ih

theorem getD_within {use use' : Option ParameterUse} (h : Option.Rel ParameterUse.Within use use') :
    (use.getD {}).Within (use'.getD {}) := by
  cases h with
  | none => exact .refl _
  | some h => exact h

/-- A type is walked by both walks or known to both. -/
theorem abreast_typeUse {type type' : TypeDef} (htype : type.Covered type')
    (hon : ∀ path path', Follows (onType type path) (onType' type' path')) :
    Abreast ParameterUse.Within (typeUse onType type path) (typeUse onType' type' path') := by
  simp only [typeUse, htype.key]
  refine abreast_get.bind fun s t hst => ?_
  have hknown := lookup_within hst.typeUse type.key
  generalize List.lookup type.key _ = known at hknown ⊢
  generalize List.lookup type.key _ = known' at hknown ⊢
  cases hknown with
  | some huse => exact abreast_pure huse
  | none =>
    refine (hon _ _).bind fun _ _ _ => abreast_get.bind fun s t hst => abreast_pure ?_
    exact getD_within (lookup_within hst.typeUse type.key)

theorem follows_walkModules (hp : p.Covered p')
    (hon : ∀ ⦃name type type'⦄, p.type? name = some type → type.Covered type' →
      ∀ path path', Follows (onType type path) (onType' type' path')) {modules modules' : List Module}
    (hmodules : Module.Covered modules modules') {scope : List Variable} :
    Follows (walkModules p onType scope path modules)
      (walkModules p' onType' scope path' modules') := by
  induction hmodules generalizing scope path path' with
  | nil => exact abreast_pure trivial
  | @single info _ _ _ _ _ hinfo _ _ ihinner ihrest =>
    simp only [walkModules, walkModule, hinfo.scope, hinfo.parameters]
    refine .andThen ?_ ihrest
    refine (follows_record hp hinfo.header.findings).andThen <|
      (follows_record hp hinfo.definition).andThen <| (follows_record hp hinfo.code).andThen <|
      ihinner.andThen <| abreast_get.bind fun s t hst => (follows_link hp hinfo.mappings).andThen ?_
    have huse := ParameterUse.ofMarks_within hst.marks info.parameters
    exact (follows_passOnAll hp hinfo.mappings (.some huse)).andThen follows_check
  | frame hinfo _ _ ihinner ihrest =>
    simp only [walkModules, walkModule]
    refine .andThen ?_ ihrest
    exact (follows_record hp hinfo.header.findings).andThen <|
      (follows_record hp hinfo.definition).andThen <| (follows_record hp hinfo.code).andThen ihinner
  | @typed info info' _ _ hinfo _ ihrest =>
    simp only [walkModules, walkModule, hinfo.typeName]
    refine .andThen ?_ ihrest
    refine (follows_record hp hinfo.header.findings).andThen ?_
    have htype := hp.type? info.typeName
    have hknown := @hon info.typeName
    revert hknown
    generalize p.type? info.typeName = type at htype
    generalize p'.type? info.typeName = type' at htype
    intro hknown
    cases htype with
    | none => exact follows_passOnAll hp hinfo.mappings .none
    | some htype =>
      exact (abreast_typeUse htype (hknown rfl htype)).bind fun _ _ huse =>
        (follows_passOnAll hp hinfo.mappings (.some huse)).andThen follows_check
  | stray value _ ihrest =>
    simp only [walkModules, walkModule]
    refine .andThen ?_ ihrest
    refine (abreast_ofFault _).bind ?_
    rintro invocation _ rfl
    refine (follows_record hp (.refl _)).andThen ?_
    split
    · exact fun _ _ _ _ _ _ _ h => absurd h ends_throw
    · exact abreast_pure trivial

theorem follows_walkType (hp : p.Covered p') (depth : Nat) {type type' : TypeDef}
    (htype : type.Covered type') (path path' : Path) :
    Follows (walkType p depth type path) (walkType p' depth type' path') := by
  induction depth generalizing type type' path path' with
  | zero => exact abreast_pure trivial
  | succ depth ih =>
    simp only [walkType, htype.scope, htype.parameters, htype.key]
    refine (follows_record hp htype.definition).andThen <|
      (follows_record hp htype.code).andThen <|
      (follows_walkModules hp (fun _ _ _ _ htype => ih htype) htype.submodules).andThen <|
      (follows_record hp htype.group).andThen <| (follows_modify fun s t hst => ?_).andThen ?_
    · exact ⟨hst.marks, .cons ⟨rfl, ParameterUse.ofMarks_within hst.marks type.parameters⟩ hst.typeUse,
        hst.aliases⟩
    · exact fun _ _ _ _ _ _ hst h h' => ⟨trivial, hst.report (issues_reporting.of_checkOwnMappings h)
        (issues_reporting.of_checkOwnMappings h')⟩

theorem Covered.walkPicture (hp : p.Covered p') {s s' t t' : State} {u u' : Unit} (hst : s.Within t)
    (h : (walkPicture p).Ends s u s') (h' : (Usage.walkPicture p').Ends t u' t') :
    s'.Within t' := by
  obtain ⟨_, _, _, hcode, hdefinition, hheader, hmodules⟩ := walkPicture_ends h
  obtain ⟨_, _, _, hcode', hdefinition', hheader', hmodules'⟩ := walkPicture_ends h'
  rw [hp.locals] at hcode' hdefinition' hheader' hmodules'
  obtain ⟨-, hst⟩ := follows_record hp hp.code hst hcode hcode'
  obtain ⟨-, hst⟩ := follows_record hp hp.definition hst hdefinition hdefinition'
  obtain ⟨-, hst⟩ := follows_record hp hp.header.findings hst hheader hheader'
  rw [← hp.types.length_eq] at hmodules'
  exact (follows_walkModules hp (fun _ _ _ _ htype => follows_walkType hp _ htype) hp.submodules hst
    hmodules hmodules').2

end Modules

/-- The variables that a report calls unused. -/
def calledUnused (issues : List Issue) : List Variable :=
  (issues.filter fun issue => issue.kind == .unused).map Issue.subject

/-- The states of two analyses of which the second also reports no more variables as unused. -/
structure State.ReportsWithin (s t : State) : Prop extends s.Within t where
  unused : calledUnused t.issues ⊆ calledUnused s.issues

section Reports

variable {p p' : Picture} {marks other : Marks} {s s' t t' : State} {u u' : Unit}

theorem calledUnused_append (first rest : List Issue) :
    calledUnused (first ++ rest) = calledUnused first ++ calledUnused rest := by
  simp [calledUnused]

theorem calledUnused_useIssues (issues : List Issue) :
    calledUnused (useIssues issues) = calledUnused issues := by
  rw [calledUnused, useIssues, filter_filter, calledUnused]
  congr 1
  refine filter_congr fun issue _ => ?_
  cases issue.kind <;> rfl

theorem SilentOnUse.calledUnused (h : SilentOnUse s s') :
    calledUnused s'.issues = Usage.calledUnused s.issues := by
  rw [← calledUnused_useIssues, h, calledUnused_useIssues]

/-- Of the declared variables those without uses are called unused. -/
theorem calledUnused_declared (marks : Marks) (unread : Bool) (ds : List Declaration) :
    calledUnused (ds.filterMap (issueOf marks unread)) =
      (ds.filter fun d => (marks.get d.declared).isUnused).map Declaration.declared := by
  induction ds with
  | nil => rfl
  | cons d rest ih =>
    rw [filterMap_cons, filter_cons]
    by_cases hunused : (marks.get d.declared).isUnused = true
    · have hof : issueOf marks unread d = some (issueAt .unused d) := by
        simp [issueOf, hunused]
      rw [hof, if_pos hunused, map_cons, ← ih]
      rfl
    · rw [if_neg hunused, ← ih]
      cases hof : issueOf marks unread d with
      | none => rfl
      | some issue =>
        have hkind : issue.kind ≠ .unused := fun hkind => hunused (issueOf_unused hof hkind).2
        simp [calledUnused, hkind]

theorem declared_unused_subset (h : marks.Within other) (ds : List Declaration) :
    (ds.filter fun d => (other.get d.declared).isUnused).map Declaration.declared ⊆
      (ds.filter fun d => (marks.get d.declared).isUnused).map Declaration.declared := by
  refine map_subset _ fun d hd => ?_
  obtain ⟨hmem, hunused⟩ := mem_filter.mp hd
  exact mem_filter.mpr ⟨hmem, (h.get d.declared).isUnused hunused⟩

theorem State.ReportsWithin.reportDeclarations (hst : s.ReportsWithin t) {unread : Bool}
    {ds : List Declaration} (h : (reportDeclarations unread ds).Ends s u s')
    (h' : (Usage.reportDeclarations unread ds).Ends t u' t') : s'.ReportsWithin t' := by
  rw [Usage.reportDeclarations, ends_modify] at h h'
  subst h h'
  refine ⟨⟨hst.marks, hst.typeUse, hst.aliases⟩, ?_⟩
  simp only [calledUnused_append, calledUnused_declared]
  intro v hv
  rcases mem_append.mp hv with hold | hnew
  · exact mem_append_left _ (hst.unused hold)
  · exact mem_append_right _ (declared_unused_subset hst.marks ds hnew)

theorem Covered.reportTypes (hp : p.Covered p') {types types' : List TypeDef}
    (htypes : List.Forall₂ TypeDef.Covered types types') (hst : s.ReportsWithin t)
    (h : (reportTypes p types).Ends s u s') (h' : (Usage.reportTypes p' types').Ends t u' t') :
    s'.ReportsWithin t' := by
  induction htypes generalizing s t with
  | nil =>
    obtain ⟨-, rfl⟩ := ends_pure.mp h
    obtain ⟨-, rfl⟩ := ends_pure.mp h'
    exact hst
  | @cons type type' _ _ htype _ ih =>
    have hown : p'.isOwnFile type'.originFile = p.isOwnFile type.originFile := by
      rw [hp.isOwnFile, htype.originFile]
    rcases reportTypes_cons.mp h with ⟨hother, h⟩ | ⟨hmine, _, _, hwalk, hreport, h⟩
    · rcases reportTypes_cons.mp h' with ⟨-, h'⟩ | ⟨hmine', -⟩
      · exact ih hst h h'
      · rw [hown, hother] at hmine'
        cases hmine'
    · rcases reportTypes_cons.mp h' with ⟨hother', -⟩ | ⟨-, _, _, hwalk', hreport', h'⟩
      · rw [hown, hmine] at hother'
        cases hother'
      · rw [← hp.types.length_eq] at hwalk'
        rw [hp.header.name, htype.ownDeclarations] at hreport'
        have hwalked := (follows_walkType hp _ htype _ _ hst.toWithin hwalk hwalk').2
        have hunused := hst.unused
        rw [← (walkType_silentOnUse hwalk).calledUnused,
          ← (walkType_silentOnUse hwalk').calledUnused] at hunused
        have hreported : State.ReportsWithin _ _ := ⟨hwalked, hunused⟩
        exact ih (hreported.reportDeclarations hreport hreport') h h'

theorem Covered.reportModules (hp : p.Covered p')
    (h : (reportModules p).Ends (State.start marks) u s)
    (h' : (Usage.reportModules p').Ends (State.start marks) u' t) : s.ReportsWithin t := by
  simp only [Usage.reportModules, hp.header.name, hp.locals, hp.submodules.declarationsOf,
    ends_bind, ends_modify] at h h'
  obtain ⟨_, _, rfl, _, s₁, hwalk, _, s₂, hreplay, _, s₃, hrepeated, _, s₄, hlocals, hmodules⟩ := h
  obtain ⟨_, _, rfl, _, t₁, hwalk', _, t₂, hreplay', _, t₃, hrepeated', _, t₄, hlocals',
    hmodules'⟩ := h'
  have hstart : (State.start marks).Within (State.start marks) := ⟨.refl _, .nil, rfl⟩
  have hwalked := Covered.walkPicture hp hstart hwalk hwalk'
  have hbefore : calledUnused s₃.issues = [] :=
    (silentOnUse_before_report hwalk hreplay hrepeated).calledUnused
  have hbefore' : calledUnused t₃.issues = [] :=
    (silentOnUse_before_report hwalk' hreplay' hrepeated').calledUnused
  have hlinked : s₃.ReportsWithin t₃ := by
    rw [replayAliases, ends_modify] at hreplay hreplay'
    obtain ⟨_, rfl⟩ := reportRepeatedTypes_ends hrepeated
    obtain ⟨_, rfl⟩ := reportRepeatedTypes_ends hrepeated'
    refine ⟨⟨?_, ?_, ?_⟩, by rw [hbefore, hbefore']; exact fun _ h => h⟩
    · rw [hreplay, hreplay', hwalked.aliases]
      exact replay_within hwalked.marks s₁.aliases
    · rw [hreplay, hreplay']
      exact hwalked.typeUse
    · rw [hreplay, hreplay']
      exact hwalked.aliases
  exact (hlinked.reportDeclarations hlocals hlocals').reportDeclarations hmodules hmodules'

/-- What the analysis of a program marks, that of a program that covers it marks too, and it calls
no more variables unused. -/
theorem Covered.analyze (hp : p.Covered p') {issues issues' : List Issue}
    (h : (analyze p marks).1 = .ok issues) (h' : (Usage.analyze p' marks).1 = .ok issues') :
    (Usage.analyze p marks).2.Within (Usage.analyze p' marks).2 ∧
      calledUnused issues' ⊆ calledUnused issues := by
  obtain ⟨s, s', hmodules, htypes, rfl, hmarks⟩ := analyze_stages h
  obtain ⟨t, t', hmodules', htypes', rfl, hmarks'⟩ := analyze_stages h'
  have hreported := Covered.reportTypes hp hp.types (Covered.reportModules hp hmodules hmodules')
    htypes htypes'
  rw [hmarks, hmarks']
  exact ⟨hreported.marks, hreported.unused⟩

end Reports

end Usage

end SattLine
