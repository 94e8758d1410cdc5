import SattLine.Proofs.Usage.Late

/-!
When the analysis of a program returns. A walk stops at the first part that has the wrong shape, and
at a connection whose names cannot be read. Main statement: if the modules of a program can be read
and their connections have names, the analysis returns exactly if nothing of the wrong shape stands
anywhere in the program.
-/

namespace SattLine

open List

theorem Module.Inside.of_framed {info : FrameInfo} {inner : List Module} {m : Module}
    (h : Module.Inside [.frame info inner] m) : m = .frame info inner ∨ Module.Inside inner m := by
  cases h with
  | here h => exact .inl (mem_singleton.mp h)
  | single hs _ => cases mem_singleton.mp hs
  | framed hf h =>
    cases mem_singleton.mp hf
    exact .inr h

namespace Usage

/-- Nothing of the wrong shape is found. -/
def Faultless (found : List Finding) : Prop :=
  ∀ problem, .error problem ∉ found

@[simp] theorem faultless_nil : Faultless [] := by
  simp [Faultless]

variable {rest : List Finding}

@[simp] theorem faultless_append {first : List Finding} :
    Faultless (first ++ rest) ↔ Faultless first ∧ Faultless rest := by
  simp [Faultless, forall_and]

@[simp] theorem faultless_cons_ok {o : Occurrence} :
    Faultless (.ok o :: rest) ↔ Faultless rest := by
  simp [Faultless]

@[simp] theorem not_faultless_cons_error {problem : Problem} :
    ¬ Faultless (.error problem :: rest) := by
  intro h
  exact h problem mem_cons_self

theorem faultless_flatMap {α : Type} {items : List α} {find : α → List Finding} :
    Faultless (items.flatMap find) ↔ ∀ a ∈ items, Faultless (find a) := by
  simp only [Faultless, mem_flatMap, not_exists, not_and]
  exact ⟨fun h a ha problem => h problem a ha, fun h problem a ha => h a ha problem⟩

namespace Walk

variable {α β : Type}

/-- The walk comes to its end wherever it starts. -/
def Returns (w : Walk α) : Prop :=
  ∀ s, ∃ a s', w.Ends s a s'

theorem returns_pure (a : α) : (pure a : Walk α).Returns :=
  fun s => ⟨a, s, ends_pure.mpr ⟨rfl, rfl⟩⟩

theorem returns_modify (f : State → State) : (modify f : Walk Unit).Returns :=
  fun s => ⟨(), f s, ends_modify.mpr rfl⟩

theorem returns_get : (get : Walk State).Returns :=
  fun s => ⟨s, s, ends_get.mpr ⟨rfl, rfl⟩⟩

theorem returns_ofFault {given : Except Fault α} (h : ∃ a, given = .ok a) :
    (ofFault given).Returns := by
  obtain ⟨a, rfl⟩ := h
  exact returns_pure a

theorem Returns.bind {w : Walk α} {next : α → Walk β} (hw : w.Returns)
    (hnext : ∀ a, (next a).Returns) : (w >>= next).Returns := by
  intro s
  obtain ⟨a, t, hends⟩ := hw s
  obtain ⟨b, s', hrest⟩ := hnext a t
  exact ⟨b, s', ends_bind.mpr ⟨a, t, hends, hrest⟩⟩

end Walk

open Walk

/-- The names in a connection can be read. -/
structure Legible (m : Mapping) : Prop where
  source : ∃ name, baseName m.source = .ok name
  target : ∃ name, baseName m.target = .ok name

section Steps

variable {p : Picture} {scope : List Variable} {path : Path} {m : Mapping}
  {mappings : List Mapping}

theorem mark_returns (v : Variable) (access : Access) : (mark v access path).Returns :=
  returns_modify _

theorem markAll_returns (v : Variable) (kinds : List Access) :
    (markAll v kinds path).Returns := by
  induction kinds with
  | nil => exact returns_pure ()
  | cons access rest ih => exact (mark_returns v access).bind fun _ => ih

variable {found : List Finding} {use : Option ParameterUse}

theorem record_returns (h : Faultless found) : (record p scope path found).Returns := by
  induction found with
  | nil => exact returns_pure ()
  | cons finding rest ih =>
    cases finding with
    | error problem => exact absurd h not_faultless_cons_error
    | ok o =>
      have hrest := ih (faultless_cons_ok.mp h)
      simp only [record]
      split
      · exact (mark_returns _ _).bind fun _ => hrest
      · exact hrest

theorem faultless_of_record {s s' : State} {u : Unit}
    (h : (record p scope path found).Ends s u s') : Faultless found := by
  induction found generalizing s with
  | nil => exact faultless_nil
  | cons finding rest ih =>
    obtain ⟨o, t, rfl, hrest, -⟩ := record_cons_ends h
    exact faultless_cons_ok.mpr (ih hrest)

theorem Legible.sourceOf (h : Legible m) : ∃ found, sourceOf p scope m = .ok found := by
  obtain ⟨name, hname⟩ := h.source
  rw [Usage.sourceOf, hname]
  cases name with
  | none => exact ⟨_, rfl⟩
  | some name =>
    simp only [bind, Except.bind]
    split
    · split <;> exact ⟨_, rfl⟩
    · exact ⟨_, rfl⟩

theorem Legible.scopeTarget (h : Legible m) : ∃ found, scopeTarget scope m = .ok found := by
  obtain ⟨name, hname⟩ := h.target
  rw [Usage.scopeTarget, hname]
  cases name <;> exact ⟨_, rfl⟩

theorem Legible.exactTarget (h : Legible m) : ∃ found, exactTarget scope m = .ok found := by
  obtain ⟨name, hname⟩ := h.target
  rw [Usage.exactTarget, hname]
  cases name <;> exact ⟨_, rfl⟩

theorem passOn_returns (h : Legible m) : (passOn p use scope path m).Returns := by
  refine (returns_ofFault h.source).bind fun name => ?_
  refine (returns_ofFault h.target).bind fun target => ?_
  split
  · split
    · exact mark_returns _ _
    · exact returns_pure ()
  · refine (returns_ofFault h.sourceOf).bind fun source => ?_
    split
    · exact returns_pure ()
    · split <;> exact markAll_returns _ _

theorem checkMapping_returns {target : Option Variable} (h : Legible m) :
    (checkMapping p target scope path m).Returns := by
  unfold checkMapping
  split
  · exact returns_pure ()
  · split
    · exact returns_pure ()
    · refine (returns_ofFault h.sourceOf).bind fun source => ?_
      split
      · exact returns_pure ()
      · split
        · exact returns_modify _
        · exact returns_pure ()

variable (h : ∀ m ∈ mappings, Legible m)

include h

theorem passOnAll_returns : (passOnAll p use scope path mappings).Returns := by
  induction mappings with
  | nil => exact returns_pure ()
  | cons m rest ih =>
    obtain ⟨hfirst, hrest⟩ := forall_mem_cons.mp h
    exact (passOn_returns hfirst).bind fun _ => ih hrest

theorem checkMappings_returns {parameters : List Variable} :
    (checkMappings p parameters scope path mappings).Returns := by
  induction mappings with
  | nil => exact returns_pure ()
  | cons m rest ih =>
    obtain ⟨hfirst, hrest⟩ := forall_mem_cons.mp h
    refine (returns_ofFault hfirst.exactTarget).bind fun target => ?_
    exact (checkMapping_returns hfirst).bind fun _ => ih hrest

theorem checkOwnMappings_returns : (checkOwnMappings p scope path mappings).Returns := by
  induction mappings with
  | nil => exact returns_pure ()
  | cons m rest ih =>
    obtain ⟨hfirst, hrest⟩ := forall_mem_cons.mp h
    refine (returns_ofFault hfirst.scopeTarget).bind fun target => ?_
    exact (checkMapping_returns hfirst).bind fun _ => ih hrest

theorem link_returns {inner : List Variable} : (link p inner scope mappings).Returns := by
  induction mappings with
  | nil => exact returns_pure ()
  | cons m rest ih =>
    obtain ⟨hfirst, hrest⟩ := forall_mem_cons.mp h
    refine (returns_ofFault hfirst.sourceOf).bind fun source => ?_
    refine (returns_ofFault hfirst.scopeTarget).bind fun target => ?_
    dsimp only
    split
    · exact (returns_modify _).bind fun _ => ih hrest
    · exact ih hrest

end Steps

/-- A module that can be read, with names in its connections. -/
structure Orderly (m : Module) : Prop where
  not_stray : ∀ v, m ≠ .stray v
  legible : ∀ c ∈ m.mappings, Legible c

/-- The same of all modules of a list and of those inside them. -/
def AllOrderly (modules : List Module) : Prop :=
  ∀ m, Module.Inside modules m → Orderly m

/-- Nothing of the wrong shape stands in the modules of a list, nor in those inside them. -/
def AllFaultless (modules : List Module) : Prop :=
  ∀ m, Module.Inside modules m → Faultless m.findings

section Modules

variable {p : Picture} {onType : TypeDef → Path → Walk Unit}

variable {type : TypeDef} {path : Path} {scope : List Variable} {s s' : State} {u : Unit}

theorem typeUse_returns (hon : ∀ path, (onType type path).Returns) :
    (typeUse onType type path).Returns := by
  refine returns_get.bind fun s => ?_
  split
  · exact returns_pure _
  · exact (hon _).bind fun _ => returns_get.bind fun t => returns_pure _

/-- The walk over modules returns if nothing of the wrong shape stands in them and the walks over
module types return. -/
theorem walkModules_returns (hon : ∀ type ∈ p.types, ∀ path, (onType type path).Returns) :
    ∀ {modules : List Module}, AllOrderly modules → AllFaultless modules →
      ∀ scope path, (walkModules p onType scope path modules).Returns
  | [], _, _, _, _ => returns_pure ()
  | .single info inner :: rest, horderly, hfaultless, scope, path => by
    have hself : Module.Inside (.single info inner :: rest) (.single info inner) :=
      .here mem_cons_self
    have hinner := walkModules_returns hon
      (fun m hm => horderly m (.single mem_cons_self hm))
      (fun m hm => hfaultless m (.single mem_cons_self hm))
    have hrest := walkModules_returns hon (fun m hm => horderly m hm.cons)
      (fun m hm => hfaultless m hm.cons)
    have hfound := hfaultless _ hself
    simp only [Module.findings, faultless_append] at hfound
    have hlegible := (horderly _ hself).legible
    simp only [Module.mappings] at hlegible
    refine Walk.Returns.bind ?_ fun _ => hrest scope path
    refine (record_returns hfound.1.1).bind fun _ => ?_
    refine (record_returns hfound.1.2).bind fun _ => ?_
    refine (record_returns hfound.2).bind fun _ => ?_
    refine (hinner _ _).bind fun _ => returns_get.bind fun s => ?_
    refine (link_returns hlegible).bind fun _ => ?_
    exact (passOnAll_returns hlegible).bind fun _ => checkMappings_returns hlegible
  | .frame info inner :: rest, horderly, hfaultless, scope, path => by
    have hinner := walkModules_returns hon
      (fun m hm => horderly m (.framed mem_cons_self hm))
      (fun m hm => hfaultless m (.framed mem_cons_self hm))
    have hrest := walkModules_returns hon (fun m hm => horderly m hm.cons)
      (fun m hm => hfaultless m hm.cons)
    have hfound := hfaultless _ (.here mem_cons_self)
    simp only [Module.findings, faultless_append] at hfound
    refine Walk.Returns.bind ?_ fun _ => hrest scope path
    refine (record_returns hfound.1.1).bind fun _ => ?_
    refine (record_returns hfound.1.2).bind fun _ => ?_
    exact (record_returns hfound.2).bind fun _ => hinner _ _
  | .typed info :: rest, horderly, hfaultless, scope, path => by
    have hself : Module.Inside (.typed info :: rest) (.typed info) := .here mem_cons_self
    have hrest := walkModules_returns hon (fun m hm => horderly m hm.cons)
      (fun m hm => hfaultless m hm.cons)
    have hlegible := (horderly _ hself).legible
    simp only [Module.mappings] at hlegible
    refine Walk.Returns.bind ?_ fun _ => hrest scope path
    refine (record_returns (hfaultless _ hself)).bind fun _ => ?_
    split
    · exact passOnAll_returns hlegible
    · rename_i type htype
      refine (typeUse_returns (hon type (Picture.type?_mem htype))).bind fun use => ?_
      exact (passOnAll_returns hlegible).bind fun _ => checkMappings_returns hlegible
  | .stray v :: rest, horderly, _, _, _ =>
    absurd rfl ((horderly _ (.here mem_cons_self)).not_stray v)

theorem faultless_of_walkModule {m : Module} (horderly : Orderly m)
    (h : (walkModule p onType scope path m).Ends s u s') : Faultless m.findings := by
  cases m with
  | single info inner | frame info inner =>
    simp only [walkModule, ends_bind] at h
    obtain ⟨_, _, hheader, _, _, hdefinition, _, _, hcode, -⟩ := h
    simp only [Module.findings, faultless_append]
    exact ⟨⟨faultless_of_record hheader, faultless_of_record hdefinition⟩,
      faultless_of_record hcode⟩
  | typed info =>
    simp only [walkModule, ends_bind] at h
    obtain ⟨_, _, hheader, -⟩ := h
    exact faultless_of_record hheader
  | stray v => exact absurd rfl (horderly.not_stray v)

theorem allFaultless_of_walkModules {modules : List Module} (horderly : AllOrderly modules)
    (h : (walkModules p onType scope path modules).Ends s u s') : AllFaultless modules := by
  have hany : Closed (fun _ => True) fun _ _ => True :=
    { refl := fun _ => trivial, trans := fun _ _ => trivial, note := fun _ _ _ _ => trivial,
      report := fun _ _ _ _ => trivial, link := fun _ _ _ _ => trivial }
  intro m hm
  induction hm generalizing scope path s s' u with
  | here hm =>
    obtain ⟨_, _, _, -, hwalk, -⟩ := hany.of_mem (fun _ _ _ _ _ _ _ _ => trivial) hm h
    exact faultless_of_walkModule (horderly _ (.here hm)) hwalk
  | single hm _ ih =>
    obtain ⟨_, _, _, -, hwalk, -⟩ := hany.of_mem (fun _ _ _ _ _ _ _ _ => trivial) hm h
    simp only [walkModule, ends_bind] at hwalk
    obtain ⟨_, _, -, _, _, -, _, _, -, _, _, hinner, -⟩ := hwalk
    exact ih (fun m hm' => horderly m (.single hm hm')) hinner
  | framed hm _ ih =>
    obtain ⟨_, _, _, -, hwalk, -⟩ := hany.of_mem (fun _ _ _ _ _ _ _ _ => trivial) hm h
    simp only [walkModule, ends_bind] at hwalk
    obtain ⟨_, _, -, _, _, -, _, _, -, hinner⟩ := hwalk
    exact ih (fun m hm' => horderly m (.framed hm hm')) hinner

/-- A module type whose modules can be read, with names in all connections. -/
structure OrderlyType (type : TypeDef) : Prop where
  modules : AllOrderly type.submodules
  legible : ∀ c ∈ type.mappings, Legible c

/-- Nothing of the wrong shape stands in a module type. -/
structure FaultlessType (type : TypeDef) : Prop where
  own : Faultless type.findings
  modules : AllFaultless type.submodules

theorem walkType_returns (horderly : ∀ type ∈ p.types, OrderlyType type)
    (hfaultless : ∀ type ∈ p.types, FaultlessType type) (depth : Nat) :
    ∀ type ∈ p.types, ∀ path, (walkType p depth type path).Returns := by
  induction depth with
  | zero => exact fun _ _ _ => returns_pure ()
  | succ depth ih =>
    intro type htype path
    have hown := (hfaultless type htype).own
    simp only [TypeDef.findings, faultless_append] at hown
    have hmodules := walkModules_returns ih (horderly type htype).modules
      (hfaultless type htype).modules
    refine (record_returns hown.1.1).bind fun _ => ?_
    refine (record_returns hown.1.2).bind fun _ => ?_
    refine (hmodules _ _).bind fun _ => ?_
    refine (record_returns hown.2).bind fun _ => (returns_modify _).bind fun _ => ?_
    exact checkOwnMappings_returns (horderly type htype).legible

theorem faultlessType_of_walkType {depth : Nat} (horderly : OrderlyType type)
    (h : (walkType p (depth + 1) type path).Ends s u s') : FaultlessType type := by
  simp only [walkType, ends_bind] at h
  obtain ⟨_, _, hdefinition, _, _, hcode, _, _, hmodules, _, _, hgroup, -⟩ := h
  refine ⟨?_, allFaultless_of_walkModules horderly.modules hmodules⟩
  simp only [TypeDef.findings, faultless_append]
  exact ⟨⟨faultless_of_record hdefinition, faultless_of_record hcode⟩, faultless_of_record hgroup⟩

end Modules

/-- A program that states its name, whose modules can be read and whose module types are its own. -/
structure OrderlyPicture (p : Picture) : Prop where
  header : p.absent.contains "header" = false
  modules : AllOrderly p.submodules
  types : ∀ type ∈ p.types, OrderlyType type
  own : ∀ type ∈ p.types, p.isOwnFile type.originFile = .ok true

/-- Nothing of the wrong shape stands in a program. -/
structure FaultlessPicture (p : Picture) : Prop where
  header : Faultless (Usage.header p.header)
  definition : Faultless (Usage.definition p.definition)
  code : Faultless (Usage.code p.code)
  modules : AllFaultless p.submodules
  types : ∀ type ∈ p.types, FaultlessType type

section Pictures

variable {p : Picture}

theorem rootPath_returns (h : p.absent.contains "header" = false) : (rootPath p).Returns := by
  rw [rootPath, h]
  exact returns_pure _

theorem walkPicture_returns (horderly : OrderlyPicture p) (hfaultless : FaultlessPicture p) :
    (walkPicture p).Returns := by
  refine (rootPath_returns horderly.header).bind fun path => ?_
  refine (record_returns hfaultless.code).bind fun _ => ?_
  refine (record_returns hfaultless.definition).bind fun _ => ?_
  refine (record_returns hfaultless.header).bind fun _ => ?_
  exact walkModules_returns (walkType_returns horderly.types hfaultless.types _) horderly.modules
    hfaultless.modules _ _

variable {types : List TypeDef}

theorem ownTypes_ok (h : ∀ type ∈ types, p.isOwnFile type.originFile = .ok true) :
    ownTypes p types = .ok types := by
  induction types with
  | nil => rfl
  | cons type rest ih =>
    obtain ⟨hfirst, hrest⟩ := forall_mem_cons.mp h
    rw [ownTypes, hfirst, ih hrest]
    rfl

theorem reportRepeatedTypes_returns (h : OrderlyPicture p) : (reportRepeatedTypes p).Returns := by
  refine (rootPath_returns h.header).bind fun path => ?_
  refine (returns_ofFault ⟨_, ownTypes_ok h.own⟩).bind fun types => ?_
  exact returns_modify _

theorem reportTypes_returns (hown : ∀ type ∈ types, p.isOwnFile type.originFile = .ok true)
    (hwalk : ∀ type ∈ types, ∀ path, (walkType p p.types.length type path).Returns) :
    (reportTypes p types).Returns := by
  induction types with
  | nil => exact returns_pure ()
  | cons type rest ih =>
    obtain ⟨hfirst, hothers⟩ := forall_mem_cons.mp hown
    obtain ⟨hwalks, hrest⟩ := forall_mem_cons.mp hwalk
    intro s
    obtain ⟨_, t, ht⟩ := hwalks [p.header.name, type.label] s
    obtain ⟨_, t', ht'⟩ := returns_modify
      (fun s => { s with issues := s.issues ++
        (type.ownDeclarations [p.header.name]).filterMap (issueOf s.marks true) }) t
    obtain ⟨u, s', hs'⟩ := ih hothers hrest t'
    exact ⟨u, s', reportTypes_cons.mpr (.inr ⟨hfirst, t, t', ht, ht', hs'⟩)⟩

theorem faultlessTypes_of_reportTypes {s s' : State} {u : Unit}
    (hown : ∀ type ∈ types, p.isOwnFile type.originFile = .ok true)
    (horderly : ∀ type ∈ types, OrderlyType type) (hsome : 0 < p.types.length)
    (h : (reportTypes p types).Ends s u s') : ∀ type ∈ types, FaultlessType type := by
  induction types generalizing s with
  | nil => simp
  | cons type rest ih =>
    obtain ⟨hfirst, hothers⟩ := forall_mem_cons.mp hown
    obtain ⟨htype, htypes⟩ := forall_mem_cons.mp horderly
    rcases reportTypes_cons.mp h with ⟨hforeign, -⟩ | ⟨-, t, t', hwalk, -, hrest⟩
    · rw [hfirst] at hforeign
      cases hforeign
    · obtain ⟨depth, hdepth⟩ := Nat.exists_eq_succ_of_ne_zero (Nat.pos_iff_ne_zero.mp hsome)
      rw [hdepth] at hwalk
      exact forall_mem_cons.mpr ⟨faultlessType_of_walkType htype hwalk,
        ih hothers htypes hrest⟩

/-- The analysis of a program that can be read returns exactly if nothing of the wrong shape stands
in it. -/
theorem analyze_returns_iff (h : OrderlyPicture p) (marks : Marks) :
    (∃ issues, (analyze p marks).1 = .ok issues) ↔ FaultlessPicture p := by
  constructor
  · rintro ⟨issues, hissues⟩
    obtain ⟨s, s', hmodules, htypes, -⟩ := analyze_stages hissues
    simp only [reportModules, ends_bind] at hmodules
    obtain ⟨_, _, -, _, _, hwalk, -⟩ := hmodules
    obtain ⟨_, _, _, hcode, hdefinition, hheader, hbelow⟩ := walkPicture_ends hwalk
    refine ⟨faultless_of_record hheader, faultless_of_record hdefinition,
      faultless_of_record hcode, allFaultless_of_walkModules h.modules hbelow, ?_⟩
    intro type htype
    have hsome := length_pos_of_mem htype
    exact faultlessTypes_of_reportTypes h.own h.types hsome htypes type htype
  · intro hfaultless
    have hreturns : (analysis p).Returns := by
      refine (returns_modify _).bind fun _ => (walkPicture_returns h hfaultless).bind fun _ => ?_
      refine (returns_modify _).bind fun _ => (reportRepeatedTypes_returns h).bind fun _ => ?_
      refine (returns_modify _).bind fun _ => (returns_modify _).bind fun _ => ?_
      refine (reportTypes_returns h.own ?_).bind fun _ => returns_get.bind fun s => returns_pure _
      exact walkType_returns h.types hfaultless.types _
    obtain ⟨issues, s', hends⟩ := hreturns (State.start marks)
    refine ⟨issues, ?_⟩
    rw [analyze, hends]

end Pictures

end Usage

end SattLine
