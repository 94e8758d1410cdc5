import SattLine.Proofs.Program.Numbering
import SattLine.Proofs.Steps
import SattLine.Usage.Report

/-!
Walks that come to an end. A walk over a program may stop at a problem; what is proved about its
marks is proved of the walks that return. A walk notes uses, reports mismatches of string types and
links parameters to the variables that they are connected to; what each of these steps keeps, a
whole walk keeps. So marks are only added, and no variable is called unused before the declarations
are reported.
-/

namespace SattLine

open List

namespace Usage

/-- Whether a variable with these uses is accessed in the given way. -/
def Has (usage : Usage) : Access → Prop
  | .read => usage.read = true
  | .write => usage.written = true

theorem has_note (usage : Usage) (access : Access) (path : Path) :
    (usage.note access path).Has access := by
  cases access <;> simp [Has, note]

variable {usage : Usage} {access : Access}

theorem Has.note (h : usage.Has access) (other : Access) (path : Path) :
    (usage.note other path).Has access := by
  cases access <;> simp_all [Has, Usage.note]

theorem Has.not_isUnused (h : usage.Has access) : usage.isUnused = false := by
  cases access <;> simp_all [Has, isUnused]

end Usage

namespace Marks

/-- Whether the variable is marked as accessed in the given way. -/
def Has (marks : Marks) (v : Variable) (access : Access) : Prop :=
  (marks.get v).Has access

/-- Later marks have the same variables and all uses of the earlier ones. -/
structure Grows (before after : Marks) : Prop where
  size_eq : after.entries.size = before.entries.size
  keeps : ∀ v access, before.Has v access → after.Has v access

theorem Grows.refl (marks : Marks) : marks.Grows marks :=
  ⟨rfl, fun _ _ h => h⟩

theorem Grows.trans {a b c : Marks} (hab : a.Grows b) (hbc : b.Grows c) : a.Grows c :=
  ⟨hbc.size_eq.trans hab.size_eq, fun v access h => hbc.keeps v access (hab.keeps v access h)⟩

theorem get_note (marks : Marks) (v w : Variable) (access : Access) (path : Path) :
    (marks.note v access path).get w =
      if v.id = w.id ∧ v.id < marks.entries.size then (marks.get w).note access path
      else marks.get w := by
  simp only [get, note, Array.getD_eq_getD_getElem?, Array.getElem?_modify]
  by_cases hid : v.id = w.id
  · by_cases hsize : v.id < marks.entries.size
    · rw [hid] at hsize ⊢
      simp [hsize]
    · rw [hid] at hsize ⊢
      simp [hsize]
  · simp [hid]

theorem has_note (marks : Marks) (v : Variable) (access : Access) (path : Path)
    (hv : v.id < marks.entries.size) : (marks.note v access path).Has v access := by
  rw [Has, get_note, if_pos ⟨rfl, hv⟩]
  exact Usage.has_note _ _ _

theorem grows_note (marks : Marks) (v : Variable) (access : Access) (path : Path) :
    marks.Grows (marks.note v access path) := by
  refine ⟨by simp [note], fun w other h => ?_⟩
  rw [Has, get_note]
  split
  · exact Usage.Has.note h _ _
  · exact h

/-- Gives a variable some uses more. -/
def noteAll (marks : Marks) (v : Variable) (places : List (Path × Access)) : Marks :=
  places.foldl (fun marks place => marks.note v place.2 place.1) marks

end Marks

namespace Module

/-- What a module states of itself: its invocation, its graphics and its code. -/
def findings : Module → List Usage.Finding
  | .single info _ | .frame info _ =>
    Usage.header info.header ++ Usage.definition info.definition ++ Usage.code info.code
  | .typed info => Usage.header info.header
  | .stray value =>
    match (do (← value.field "header").toHeader : Except Fault Header) with
    | .ok invocation => Usage.header invocation
    | .error _ => []

/-- The connections of a module. -/
def mappings : Module → List Mapping
  | .single info _ => info.mappings
  | .frame _ _ => []
  | .typed info => info.mappings
  | .stray _ => []

end Module

namespace Usage

namespace Walk

/-- The walk `w` started in state `s` returns `a` and leaves state `s'`. -/
def Ends (w : Walk α) (s : State) (a : α) (s' : State) : Prop :=
  w.run.run s = (.ok a, s')

variable {α β : Type} {s s' : State}

variable {a : α} {next : α → Walk β} {f : State → State} {problem : Problem}
  {given : Except Fault α}

@[simp] theorem ends_pure {b : α} : (pure a : Walk α).Ends s b s' ↔ b = a ∧ s' = s :=
  ended_iff

@[simp] theorem ends_bind {w : Walk α} {b : β} :
    (w >>= next).Ends s b s' ↔ ∃ a t, w.Ends s a t ∧ (next a).Ends t b s' :=
  bind_ended_iff

@[simp] theorem ends_modify {u : Unit} : (modify f : Walk Unit).Ends s u s' ↔ s' = f s :=
  ended_iff.trans (and_iff_right rfl)

@[simp] theorem ends_get {a : State} : (get : Walk State).Ends s a s' ↔ a = s ∧ s' = s :=
  ended_iff

@[simp] theorem ends_throw : ¬ (throw problem : Walk α).Ends s a s' := by
  intro h
  cases h

@[simp] theorem ends_ofFault : (ofFault given).Ends s a s' ↔ given = .ok a ∧ s' = s := by
  cases given with
  | error f => simp [ofFault]
  | ok b =>
    simp only [ofFault, ends_pure, Except.ok.injEq]
    exact ⟨fun h => ⟨h.1.symm, h.2⟩, fun h => ⟨h.1.symm, h.2⟩⟩

/-- Whenever the walk returns, the states before and after it are related. -/
def Keeps (R : State → State → Prop) (w : Walk α) : Prop :=
  ∀ ⦃s a s'⦄, w.Ends s a s' → R s s'

variable {R : State → State → Prop}

theorem keeps_throw : (throw problem : Walk α).Keeps R :=
  fun _ _ _ h => absurd h ends_throw

theorem keeps_modify (h : ∀ s, R s (f s)) : (modify f : Walk Unit).Keeps R := by
  intro s u s' hends
  rw [ends_modify.mp hends]
  exact h s

/-- Data of the wrong shape stop a walk. -/
theorem keeps_ofFault (h : ∀ a, given = .ok a → (next a).Keeps R) :
    (ofFault given >>= next).Keeps R := by
  intro s b s' hends
  simp only [ends_bind, ends_ofFault] at hends
  obtain ⟨a, _, ⟨ha, rfl⟩, hrest⟩ := hends
  exact h a ha hrest

end Walk

open Walk

namespace State

/-- What every walk does to its state: marks are only added, and no unused variable is reported. -/
structure Grows (s s' : State) : Prop where
  marks : s.marks.Grows s'.marks
  issues : ∀ issue ∈ s'.issues, issue.kind = .unused → issue ∈ s.issues

/-- A walk that meets no module type also leaves the parameter use of the types as it was. -/
structure GrowsQuietly (s s' : State) : Prop extends s.Grows s' where
  typeUse_eq : s'.typeUse = s.typeUse

theorem Grows.refl (s : State) : s.Grows s :=
  ⟨.refl _, fun _ h _ => h⟩

theorem Grows.trans {a b c : State} (hab : a.Grows b) (hbc : b.Grows c) : a.Grows c :=
  ⟨hab.marks.trans hbc.marks, fun issue h hkind =>
    hab.issues issue (hbc.issues issue h hkind) hkind⟩

theorem GrowsQuietly.refl (s : State) : s.GrowsQuietly s :=
  ⟨.refl s, rfl⟩

theorem GrowsQuietly.trans {a b c : State} (hab : a.GrowsQuietly b) (hbc : b.GrowsQuietly c) :
    a.GrowsQuietly c :=
  ⟨hab.toGrows.trans hbc.toGrows, hbc.typeUse_eq.trans hab.typeUse_eq⟩

end State

/-- A relation between the states before and after that holds of walk after walk. -/
structure Chains (R : State → State → Prop) : Prop where
  refl : ∀ s, R s s
  trans : ∀ {a b c}, R a b → R b c → R a c

/-- One that holds when a use is noted. -/
structure Noting (R : State → State → Prop) : Prop extends Chains R where
  note : ∀ s v access path, R s { s with marks := s.marks.note v access path }

/-- One that holds when a mismatch is reported. -/
structure Reporting (R : State → State → Prop) : Prop extends Chains R where
  report : ∀ s target source path,
    R s { s with issues := s.issues ++ [mismatch target source path] }

/-- One that holds when a parameter, one of the `targets`, is linked to the variable that it is
connected to. -/
structure Linking (targets : Variable → Prop) (R : State → State → Prop) : Prop extends
    Chains R where
  link : ∀ s source target, targets target →
    R s { s with aliases := s.aliases ++ [(source, target)] }

/-- One that holds of all that a walk does at a time. -/
structure Closed (targets : Variable → Prop) (R : State → State → Prop) : Prop extends
    Noting R, Reporting R, Linking targets R

theorem State.growsQuietly_closed : Closed (fun _ => True) State.GrowsQuietly where
  refl := .refl
  trans := .trans
  note s v access path := ⟨⟨Marks.grows_note _ _ _ _, fun _ hi _ => hi⟩, rfl⟩
  report s target source path := by
    refine ⟨⟨.refl _, fun issue hi hkind => ?_⟩, rfl⟩
    rcases mem_append.mp hi with hold | hnew
    · exact hold
    · rw [mem_singleton] at hnew
      subst hnew
      cases hkind
  link _ _ _ _ := ⟨⟨.refl _, fun _ hi _ => hi⟩, rfl⟩

theorem State.grows_closed : Closed (fun _ => True) State.Grows where
  refl := .refl
  trans := .trans
  note s v access path := (State.growsQuietly_closed.note s v access path).toGrows
  report s target source path := (State.growsQuietly_closed.report s target source path).toGrows
  link s source target h := (State.growsQuietly_closed.link s source target h).toGrows

theorem scopeTarget_mem {scope : List Variable} {m : Mapping} {v : Variable}
    (h : scopeTarget scope m = .ok (some v)) : v ∈ scope := by
  unfold scopeTarget at h
  cases hname : baseName m.target with
  | error f =>
    rw [hname] at h
    cases h
  | ok name =>
    rw [hname] at h
    cases name with
    | none => cases h
    | some name =>
      have hfind : Variable.find? scope name = some v := Except.ok.inj h
      exact mem_reverse.mp (mem_of_find?_eq_some hfind)

section Steps

variable {p : Picture} {s s' : State} {path : Path} {u : Unit} {targets : Variable → Prop}
  {R : State → State → Prop} {v : Variable} {inner outer scope : List Variable}
  {use : Option ParameterUse} {access : Access} {kinds : List Access} {found : List Finding}
  {m : Mapping} {mappings : List Mapping}

namespace Chains

variable {α β : Type}

theorem of_pure (hR : Chains R) {a : α} : (pure a : Walk α).Keeps R := by
  intro s b s' h
  obtain ⟨-, rfl⟩ := ends_pure.mp h
  exact hR.refl _

theorem bind (hR : Chains R) {w : Walk α} {next : α → Walk β} (hw : w.Keeps R)
    (hnext : ∀ a, (next a).Keeps R) : (w >>= next).Keeps R := by
  intro s b s' h
  obtain ⟨a, t, hfirst, hrest⟩ := ends_bind.mp h
  exact hR.trans (hw hfirst) (hnext a hrest)

theorem of_get (hR : Chains R) {next : State → Walk β} (hnext : ∀ s, (next s).Keeps R) :
    (get >>= next).Keeps R := by
  refine hR.bind (fun s a s' h => ?_) hnext
  obtain ⟨-, rfl⟩ := ends_get.mp h
  exact hR.refl _

theorem of_markAll (hR : Chains R) (hmark : ∀ access ∈ kinds, (mark v access path).Keeps R) :
    (markAll v kinds path).Keeps R := by
  induction kinds with
  | nil => exact hR.of_pure
  | cons access rest ih =>
    obtain ⟨hfirst, hrest⟩ := forall_mem_cons.mp hmark
    exact hR.bind hfirst fun _ => ih hrest

theorem of_record (hR : Chains R) (hmark : ∀ o, .ok o ∈ found → ∀ v, resolve p scope o = some v →
    (mark v o.access path).Keeps R) : (record p scope path found).Keeps R := by
  induction found with
  | nil => exact hR.of_pure
  | cons finding rest ih =>
    have hrest := ih fun o ho => hmark o (mem_cons_of_mem _ ho)
    cases finding with
    | error problem => exact keeps_throw
    | ok o =>
      cases hresolve : resolve p scope o with
      | none => simpa only [record, hresolve] using hrest
      | some v =>
        simp only [record, hresolve]
        exact hR.bind (hmark o mem_cons_self v hresolve) fun _ => hrest

theorem of_passOn (hR : Chains R)
    (hglobal : ∀ name v, baseName m.source = .ok (some name) → p.find? name = some v →
      (mark v .read path).Keeps R)
    (hlocal : ∀ v access, ¬ m.isGlobal.holds = true → sourceOf p scope m = .ok (some v) →
      (mark v access path).Keeps R) : (passOn p use scope path m).Keeps R := by
  refine keeps_ofFault fun name hname => keeps_ofFault fun target _ => ?_
  split
  · split
    · rename_i v hfind
      obtain ⟨key, rfl, hfind⟩ := Option.bind_eq_some_iff.mp hfind
      exact hglobal key v hname hfind
    · exact hR.of_pure
  · rename_i hnot
    refine keeps_ofFault fun source hsource => ?_
    split
    · exact hR.of_pure
    · split <;> exact hR.of_markAll fun access _ => hlocal _ access hnot hsource

theorem of_passOnAll (hR : Chains R) (hpass : ∀ m ∈ mappings, (passOn p use scope path m).Keeps R) :
    (passOnAll p use scope path mappings).Keeps R := by
  induction mappings with
  | nil => exact hR.of_pure
  | cons m rest ih =>
    obtain ⟨hfirst, hrest⟩ := forall_mem_cons.mp hpass
    exact hR.bind hfirst fun _ => ih hrest

end Chains

namespace Noting

theorem of_mark (hR : Noting R) : (mark v access path).Keeps R :=
  keeps_modify fun s => hR.note s v access path

theorem of_markAll (hR : Noting R) : (markAll v kinds path).Keeps R :=
  hR.toChains.of_markAll fun _ _ => hR.of_mark

theorem of_record (hR : Noting R) : (record p scope path found).Keeps R :=
  hR.toChains.of_record fun _ _ _ _ => hR.of_mark

theorem of_passOnAll (hR : Noting R) : (passOnAll p use scope path mappings).Keeps R :=
  hR.toChains.of_passOnAll fun _ _ =>
    hR.of_passOn (fun _ _ _ _ => hR.of_mark) fun _ _ _ _ => hR.of_mark

theorem of_noteAll (hR : Noting R) (v : Variable) (places : List (Path × Access)) (s : State) :
    R s { s with marks := s.marks.noteAll v places } := by
  induction places generalizing s with
  | nil => exact hR.refl s
  | cons place rest ih => exact hR.trans (hR.note s v place.2 place.1) (ih _)

/-- Passing on the uses of sources notes some uses more. -/
theorem of_replay (hR : Noting R) (links : List (Variable × Variable)) (s : State) :
    R s { s with marks := replay links s.marks } := by
  induction links generalizing s with
  | nil => exact hR.refl s
  | cons link rest ih => exact hR.trans (hR.of_noteAll link.2 _ s) (ih _)

end Noting

namespace Reporting

theorem of_checkMapping (hR : Reporting R) {target : Option Variable} :
    (checkMapping p target scope path m).Keeps R := by
  unfold checkMapping
  split
  · exact hR.of_pure
  · split
    · exact hR.of_pure
    · refine keeps_ofFault fun source _ => ?_
      split
      · exact hR.of_pure
      · split
        · exact keeps_modify fun s => hR.report s _ _ path
        · exact hR.of_pure

theorem of_checkMappings (hR : Reporting R) {parameters : List Variable} :
    (checkMappings p parameters scope path mappings).Keeps R := by
  induction mappings with
  | nil => exact hR.of_pure
  | cons m rest ih => exact keeps_ofFault fun _ _ => hR.bind hR.of_checkMapping fun _ => ih

theorem of_checkOwnMappings (hR : Reporting R) :
    (checkOwnMappings p scope path mappings).Keeps R := by
  induction mappings with
  | nil => exact hR.of_pure
  | cons m rest ih => exact keeps_ofFault fun _ _ => hR.bind hR.of_checkMapping fun _ => ih

end Reporting

theorem Linking.of_link (hR : Linking targets R) (hinner : ∀ v ∈ inner, targets v) :
    (Usage.link p inner outer mappings).Keeps R := by
  induction mappings with
  | nil => exact hR.of_pure
  | cons m rest ih =>
    refine keeps_ofFault fun source _ => keeps_ofFault fun target htarget => ?_
    split
    · refine hR.bind (keeps_modify fun s => ?_) fun _ => ih
      exact hR.link _ _ _ (hinner _ (scopeTarget_mem htarget))
    · exact ih

theorem issues_reporting : Reporting fun s s' => s' = { s with issues := s'.issues } where
  refl _ := rfl
  trans hab hbc := by rw [hbc, hab]
  report _ _ _ _ := rfl

theorem mark_grows (h : (mark v access path).Ends s u s') : s.GrowsQuietly s' :=
  State.growsQuietly_closed.of_mark h

theorem mark_has (h : (mark v access path).Ends s u s') (hv : v.id < s.marks.entries.size) :
    s'.marks.Has v access := by
  rw [mark, ends_modify] at h
  subst h
  exact Marks.has_note _ _ _ _ hv

theorem markAll_grows (h : (markAll v kinds path).Ends s u s') : s.GrowsQuietly s' :=
  State.growsQuietly_closed.of_markAll h

theorem markAll_has (h : (markAll v kinds path).Ends s u s') (hv : v.id < s.marks.entries.size)
    (haccess : access ∈ kinds) : s'.marks.Has v access := by
  induction kinds generalizing s with
  | nil => simp at haccess
  | cons first rest ih =>
    simp only [markAll, ends_bind] at h
    obtain ⟨_, t, hmark, hrest⟩ := h
    have hsize := (mark_grows hmark).marks.size_eq
    rcases mem_cons.mp haccess with rfl | htail
    · exact (markAll_grows hrest).marks.keeps v access (mark_has hmark hv)
    · exact ih hrest (hsize ▸ hv) htail

/-- What is recorded before the first problem is all there is, if the walk returns. -/
theorem record_cons_ends {finding : Finding} {rest : List Finding}
    (h : (record p scope path (finding :: rest)).Ends s u s') :
    ∃ o t, finding = .ok o ∧ (record p scope path rest).Ends t u s' ∧ s.GrowsQuietly t ∧
      ∀ v, resolve p scope o = some v → v.id < s.marks.entries.size → t.marks.Has v o.access := by
  cases finding with
  | error problem => exact absurd h ends_throw
  | ok o =>
    cases hresolve : resolve p scope o with
    | none =>
      simp only [record, hresolve] at h
      exact ⟨o, s, rfl, h, .refl _, by simp [hresolve]⟩
    | some w =>
      simp only [record, hresolve, ends_bind] at h
      obtain ⟨_, t, hfirst, hrest⟩ := h
      refine ⟨o, t, rfl, hrest, mark_grows hfirst, ?_⟩
      intro v hv hsize
      rw [hresolve] at hv
      cases hv
      exact mark_has hfirst hsize

theorem record_grows (h : (record p scope path found).Ends s u s') : s.GrowsQuietly s' :=
  State.growsQuietly_closed.of_record h

theorem record_has {o : Occurrence} (h : (record p scope path found).Ends s u s')
    (ho : .ok o ∈ found) (hresolve : resolve p scope o = some v)
    (hv : v.id < s.marks.entries.size) : s'.marks.Has v o.access := by
  induction found generalizing s with
  | nil => simp at ho
  | cons finding rest ih =>
    obtain ⟨first, t, rfl, hrest, hgrows, hmarked⟩ := record_cons_ends h
    rcases mem_cons.mp ho with heq | htail
    · cases heq
      exact (record_grows hrest).marks.keeps v _ (hmarked v hresolve hv)
    · exact ih hrest htail (hgrows.marks.size_eq ▸ hv)

theorem passOn_grows (h : (passOn p use scope path m).Ends s u s') : s.GrowsQuietly s' :=
  State.growsQuietly_closed.of_passOn (fun _ _ _ _ => State.growsQuietly_closed.of_mark)
    (fun _ _ _ _ => State.growsQuietly_closed.of_mark) h

theorem passOnAll_grows (h : (passOnAll p use scope path mappings).Ends s u s') :
    s.GrowsQuietly s' :=
  State.growsQuietly_closed.of_passOnAll h

theorem checkMappings_grows {parameters : List Variable}
    (h : (checkMappings p parameters scope path mappings).Ends s u s') : s.GrowsQuietly s' :=
  State.growsQuietly_closed.of_checkMappings h

theorem checkOwnMappings_grows (h : (checkOwnMappings p scope path mappings).Ends s u s') :
    s.GrowsQuietly s' :=
  State.growsQuietly_closed.of_checkOwnMappings h

theorem link_grows (h : (link p inner outer mappings).Ends s u s') : s.GrowsQuietly s' :=
  State.growsQuietly_closed.of_link (fun _ _ => trivial) h

end Steps

/-- Walks over module types that only add marks. -/
def OnlyAdds (onType : TypeDef → Path → Walk Unit) : Prop :=
  ∀ ⦃type path s u s'⦄, (onType type path).Ends s u s' → s.Grows s'

section Modules

variable {p : Picture} {onType : TypeDef → Path → Walk Unit} {targets : Variable → Prop}
  {R : State → State → Prop}

variable {type : TypeDef}

/-- The use of a type that is met again is looked up; otherwise the type is walked. -/
theorem typeUse_ends {path : Path} {s s' : State} {use : ParameterUse}
    (h : (typeUse onType type path).Ends s use s') :
    (s.typeUse.lookup type.key = some use ∧ s' = s) ∨ (s.typeUse.lookup type.key = none ∧
      (onType type (path ++ [type.label])).Ends s () s' ∧
        use = (s'.typeUse.lookup type.key).getD {}) := by
  simp only [typeUse, ends_bind, ends_get] at h
  obtain ⟨_, t, ⟨rfl, rfl⟩, h⟩ := h
  cases hlookup : t.typeUse.lookup type.key with
  | some known =>
    simp only [hlookup, ends_pure] at h
    obtain ⟨rfl, rfl⟩ := h
    exact .inl ⟨rfl, rfl⟩
  | none =>
    simp only [hlookup, ends_bind, ends_get, ends_pure] at h
    obtain ⟨_, t, hwalk, _, _, ⟨rfl, rfl⟩, rfl, rfl⟩ := h
    exact .inr ⟨rfl, hwalk, rfl⟩

/-- `Steps R p onType scope modules`: all that is done at the modules, and at those inside them,
keeps to `R`. -/
structure Steps (R : State → State → Prop) (p : Picture) (onType : TypeDef → Path → Walk Unit)
    (scope : List Variable) (modules : List Module) : Prop where
  record : ∀ ⦃m own path found⦄, Module.Inside modules m →
    own ⊆ scope ++ Module.allVariablesOf modules → found ⊆ m.findings →
      (record p own path found).Keeps R
  passOn : ∀ ⦃m own path use⦄, Module.Inside modules m →
    own ⊆ scope ++ Module.allVariablesOf modules → (passOnAll p use own path m.mappings).Keeps R
  link : ∀ ⦃own outer cs⦄, own ⊆ Module.allVariablesOf modules → (link p own outer cs).Keeps R
  check : ∀ parameters own path cs, (checkMappings p parameters own path cs).Keeps R
  types : ∀ ⦃info type path⦄, Module.Inside modules (.typed info) →
    p.type? info.typeName = some type → (typeUse onType type path).Keeps R

namespace Steps

variable {scope : List Variable} {modules : List Module}

/-- A list of modules that stands inside the given ones, with a scope of its own. -/
theorem narrow (h : Steps R p onType scope modules) {own : List Variable} {inner : List Module}
    (hown : own ⊆ scope ++ Module.allVariablesOf modules)
    (hvars : Module.allVariablesOf inner ⊆ Module.allVariablesOf modules)
    (hsub : ∀ {m}, Module.Inside inner m → Module.Inside modules m) :
    Steps R p onType own inner := by
  have hscope : own ++ Module.allVariablesOf inner ⊆ scope ++ Module.allVariablesOf modules :=
    append_subset.mpr ⟨hown, List.Subset.trans hvars (subset_append_right _ _)⟩
  exact ⟨fun _ _ _ _ hm hv => h.record (hsub hm) (List.Subset.trans hv hscope),
    fun _ _ _ _ hm hv => h.passOn (hsub hm) (List.Subset.trans hv hscope),
    fun _ _ _ hv => h.link (List.Subset.trans hv hvars), h.check, fun _ _ _ hm => h.types (hsub hm)⟩

theorem tail {first : Module} {rest : List Module} (h : Steps R p onType scope (first :: rest)) :
    Steps R p onType scope rest :=
  h.narrow (subset_append_left _ _) (subset_append_right _ _) .cons

/-- What holds step by step holds of walks over modules, whatever is nested in them. -/
theorem walkModules (hR : Chains R) : ∀ {modules : List Module} {scope : List Variable}
    {path : Path}, Steps R p onType scope modules →
    (walkModules p onType scope path modules).Keeps R
  | [], _, _, _ => hR.of_pure
  | .single info inner :: rest, scope, path, h => by
    have hm : Module.Inside (.single info inner :: rest) (.single info inner) :=
      .here mem_cons_self
    have hown := List.Subset.trans hm.scope_subset (subset_append_right scope _)
    have hinner : Module.allVariablesOf inner ⊆
        Module.allVariablesOf (.single info inner :: rest) :=
      List.Subset.trans (subset_append_right _ _) (subset_append_left _ _)
    refine hR.bind ?_ fun _ => walkModules hR h.tail
    -- Only the invocation is recorded in the scope around the module.
    refine hR.bind (h.record hm (subset_append_left _ _) ?_) fun _ => ?_
    · simp [Module.findings, append_assoc]
    refine hR.bind (h.record hm hown (by simp [Module.findings])) fun _ => ?_
    refine hR.bind (h.record hm hown (by simp [Module.findings])) fun _ => ?_
    refine hR.bind (walkModules hR (h.narrow hown hinner (.single mem_cons_self))) fun _ => ?_
    refine hR.of_get fun _ => hR.bind (h.link hm.scope_subset) fun _ => ?_
    exact hR.bind (h.passOn hm (subset_append_left _ _)) fun _ => h.check _ _ _ _
  | .frame info inner :: rest, scope, path, h => by
    have hm : Module.Inside (.frame info inner :: rest) (.frame info inner) :=
      .here mem_cons_self
    have hscope := subset_append_left scope (Module.allVariablesOf (.frame info inner :: rest))
    refine hR.bind ?_ fun _ => walkModules hR h.tail
    refine hR.bind (h.record hm hscope (by simp [Module.findings, append_assoc])) fun _ => ?_
    refine hR.bind (h.record hm hscope (by simp [Module.findings])) fun _ => ?_
    refine hR.bind (h.record hm hscope (by simp [Module.findings])) fun _ => ?_
    exact walkModules hR (h.narrow hscope (subset_append_left _ _) (.framed mem_cons_self))
  | .typed info :: rest, scope, path, h => by
    have hm : Module.Inside (.typed info :: rest) (.typed info) := .here mem_cons_self
    have hscope := subset_append_left scope (Module.allVariablesOf (.typed info :: rest))
    refine hR.bind ?_ fun _ => walkModules hR h.tail
    refine hR.bind (h.record hm hscope (List.Subset.refl _)) fun _ => ?_
    split
    · exact h.passOn hm hscope
    · rename_i type htype
      refine hR.bind (h.types hm htype) fun _ => ?_
      exact hR.bind (h.passOn hm hscope) fun _ => h.check _ _ _ _
  | .stray value :: rest, scope, path, h => by
    refine hR.bind ?_ fun _ => walkModules hR h.tail
    refine keeps_ofFault fun invocation hread => ?_
    refine hR.bind (h.record (.here mem_cons_self) (subset_append_left _ _) ?_) fun _ => ?_
    · rw [Module.findings, hread]
      exact List.Subset.refl _
    · split
      · exact keeps_throw
      · exact hR.of_pure

end Steps

namespace Closed

variable {modules : List Module} {scope : List Variable} {path : Path} {m : Module}

/-- What holds of single steps and of the walks over module types holds of walks over modules. -/
theorem of_walkModules (hR : Closed targets R)
    (hon : ∀ ⦃name type path⦄, p.type? name = some type → (onType type path).Keeps R)
    (hvars : ∀ v ∈ Module.allVariablesOf modules, targets v) :
    (walkModules p onType scope path modules).Keeps R := by
  refine Steps.walkModules hR.toChains ⟨fun _ _ _ _ _ _ _ => hR.of_record,
    fun _ _ _ _ _ _ => hR.of_passOnAll, fun _ _ _ hown => hR.of_link fun v hv => hvars v (hown hv),
    fun _ _ _ _ => hR.of_checkMappings, fun _ type path _ htype s use s' h => ?_⟩
  rcases typeUse_ends h with ⟨-, rfl⟩ | ⟨-, hwalk, -⟩
  · exact hR.refl _
  · exact hon htype hwalk

theorem of_walkModule (hR : Closed targets R)
    (hon : ∀ ⦃name type path⦄, p.type? name = some type → (onType type path).Keeps R)
    (hvars : ∀ v ∈ Module.allVariablesOf [m], targets v) :
    (walkModule p onType scope path m).Keeps R := by
  intro s u s' h
  have hone : (walkModules p onType scope path [m]).Ends s () s' := by
    rw [walkModules, ends_bind]
    exact ⟨u, s', h, ends_pure.mpr ⟨rfl, rfl⟩⟩
  exact hR.of_walkModules hon hvars hone

/-- Each module of a list is walked at some time of the walk over the list. -/
theorem of_mem (hR : Closed (fun _ => True) R)
    (hon : ∀ ⦃name type path⦄, p.type? name = some type → (onType type path).Keeps R)
    (hm : m ∈ modules) {s s' : State} {u : Unit}
    (h : (walkModules p onType scope path modules).Ends s u s') :
    ∃ t u t', R s t ∧ (walkModule p onType scope path m).Ends t u t' ∧ R t' s' := by
  induction modules generalizing s with
  | nil => cases hm
  | cons first rest ih =>
    simp only [walkModules, ends_bind] at h
    obtain ⟨_, t, hfirst, hrest⟩ := h
    rcases mem_cons.mp hm with rfl | hm
    · exact ⟨s, _, t, hR.refl s, hfirst, hR.of_walkModules hon (fun _ _ => trivial) hrest⟩
    · obtain ⟨r, _, r', hr, hwalk, hr'⟩ := ih hm hrest
      exact ⟨r, _, r', hR.trans (hR.of_walkModule hon (fun _ _ => trivial) hfirst) hr, hwalk, hr'⟩

/-- The same of walks over module types, if it does not matter what is remembered of them. -/
theorem of_walkType (hR : Closed targets R)
    (hremember : ∀ s entries, R s { s with typeUse := entries })
    (hvars : ∀ type ∈ p.types, ∀ v ∈ Module.allVariablesOf type.submodules, targets v) :
    ∀ (depth : Nat) ⦃type path⦄, (∀ v ∈ Module.allVariablesOf type.submodules, targets v) →
      (walkType p depth type path).Keeps R
  | 0, _, _, _ => hR.of_pure
  | depth + 1, type, path, hown => by
    refine hR.bind hR.of_record fun _ => hR.bind hR.of_record fun _ => hR.bind ?_ fun _ => ?_
    · refine hR.of_walkModules (fun name inner path hinner => ?_) hown
      exact of_walkType hR hremember hvars depth (hvars inner (Picture.type?_mem hinner))
    · refine hR.bind hR.of_record fun _ => hR.bind (keeps_modify fun s => ?_) fun _ => ?_
      · exact hremember s _
      · exact hR.of_checkOwnMappings

end Closed

variable {scope : List Variable} {path : Path} {s s' : State} {u : Unit}

theorem walkModules_grows (hon : OnlyAdds onType) {modules : List Module}
    (h : (walkModules p onType scope path modules).Ends s u s') : s.Grows s' :=
  State.grows_closed.of_walkModules (fun _ _ _ _ _ _ _ hwalk => hon hwalk) (fun _ _ => trivial) h

theorem State.Grows.remember (h : s.Grows s') {entries : List (String × ParameterUse)} :
    s.Grows { s' with typeUse := entries } :=
  ⟨h.marks, h.issues⟩

theorem walkType_grows (depth : Nat) : OnlyAdds (walkType p depth) :=
  fun _ _ _ _ _ h => State.grows_closed.of_walkType (fun _ _ => ⟨.refl _, fun _ hi _ => hi⟩)
    (fun _ _ _ _ => trivial) depth (fun _ _ => trivial) h

theorem rootPath_ends {root : Path} (h : (rootPath p).Ends s root s') :
    root = [p.header.name] ∧ s' = s := by
  unfold rootPath at h
  split at h
  · exact absurd h ends_throw
  · exact ends_pure.mp h

theorem walkPicture_ends (h : (walkPicture p).Ends s u s') : ∃ s₁ s₂ s₃,
    (record p p.locals [p.header.name] (code p.code)).Ends s () s₁ ∧
    (record p p.locals [p.header.name] (definition p.definition)).Ends s₁ () s₂ ∧
    (record p p.locals [p.header.name] (header p.header)).Ends s₂ () s₃ ∧
    (walkModules p (walkType p p.types.length) p.locals [p.header.name] p.submodules).Ends s₃ ()
      s' := by
  simp only [walkPicture, ends_bind] at h
  obtain ⟨_, _, hroot, _, _, hcode, _, _, hdefinition, _, _, hheader, hmodules⟩ := h
  obtain ⟨rfl, rfl⟩ := rootPath_ends hroot
  exact ⟨_, _, _, hcode, hdefinition, hheader, hmodules⟩

theorem Closed.of_walkPicture (hR : Closed targets R) (hremember : ∀ s entries, R s { s with typeUse := entries })
    (hvars : ∀ v ∈ p.allVariables, targets v) : (walkPicture p).Keeps R := by
  intro s u s' h
  have htypes : ∀ type ∈ p.types, ∀ v ∈ Module.allVariablesOf type.submodules, targets v := by
    intro type ht v hv
    refine hvars v (mem_append_left _ (mem_append_left _ ?_))
    exact mem_flatMap.mpr ⟨type, ht, mem_append_right _ hv⟩
  obtain ⟨_, _, _, hcode, hdefinition, hheader, hmodules⟩ := walkPicture_ends h
  have hown := hR.trans (hR.trans (hR.of_record hcode) (hR.of_record hdefinition))
    (hR.of_record hheader)
  refine hR.trans hown (hR.of_walkModules (fun name type path htype => ?_)
    (fun v hv => hvars v (mem_append_right _ hv)) hmodules)
  exact hR.of_walkType hremember htypes _ (htypes type (Picture.type?_mem htype))

/-- A module type of another file is passed over; one of the picture's own is walked and then
reported. -/
theorem reportTypes_cons {rest : List TypeDef} :
    (reportTypes p (type :: rest)).Ends s u s' ↔
      (p.isOwnFile type.originFile = .ok false ∧ (reportTypes p rest).Ends s u s') ∨
      (p.isOwnFile type.originFile = .ok true ∧ ∃ t t',
        (walkType p p.types.length type [p.header.name, type.label]).Ends s () t ∧
        (reportDeclarations true (type.ownDeclarations [p.header.name])).Ends t () t' ∧
        (reportTypes p rest).Ends t' u s') := by
  simp only [reportTypes, ends_bind, ends_ofFault]
  constructor
  · rintro ⟨own, _, ⟨hown, rfl⟩, h⟩
    cases own with
    | false => exact .inl ⟨hown, h⟩
    | true =>
      simp only [↓reduceIte, ends_bind] at h
      obtain ⟨_, t, hwalk, _, t', hreport, hrest⟩ := h
      exact .inr ⟨hown, t, t', hwalk, hreport, hrest⟩
  · rintro (⟨hown, h⟩ | ⟨hown, t, t', hwalk, hreport, hrest⟩)
    · exact ⟨false, s, ⟨hown, rfl⟩, h⟩
    · refine ⟨true, s, ⟨hown, rfl⟩, ?_⟩
      simp only [↓reduceIte, ends_bind]
      exact ⟨(), t, hwalk, (), t', hreport, hrest⟩

theorem reportRepeatedTypes_ends (h : (reportRepeatedTypes p).Ends s u s') :
    ∃ ds, s' = { s with issues := s.issues ++ repeatedTypes p ds } := by
  simp only [reportRepeatedTypes, ends_bind, ends_ofFault, ends_modify] at h
  obtain ⟨_, _, hroot, _, _, ⟨-, rfl⟩, rfl⟩ := h
  obtain ⟨-, rfl⟩ := rootPath_ends hroot
  exact ⟨_, rfl⟩

end Modules

end Usage

end SattLine
