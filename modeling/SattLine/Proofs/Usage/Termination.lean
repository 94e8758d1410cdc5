import SattLine.Proofs.Usage.Covering

/-!
Walks that come to an end. The walk over a module type goes on to the types of the instances in it,
and passing on the uses of a source goes over a list that may grow meanwhile. Main statement: if no
type contains an instance of itself, the given depth is never used up, whatever would be done then,
and no module type is walked a second time on the way through the picture; if no variable is linked
to itself, going over the places of each source ends.
-/

namespace SattLine.Usage

open List
open Walk

section Unbounded

variable (p : Picture) (beyond again : TypeDef → Path → Walk Unit)

/-- The walk over a module type, with any walk over the types of the instances in it. -/
def walkBody (onType : TypeDef → Path → Walk Unit) (type : TypeDef) (path : Path) :
    Walk Unit := do
  record p type.scope path (definition type.definition)
  record p type.scope path (code type.code)
  walkModules p onType type.scope path type.submodules
  record p type.scope path (group type.groupConn type.groupGlobal)
  modify fun s =>
    let use := ParameterUse.ofMarks s.marks type.parameters
    { s with typeUse := (type.key, use) :: s.typeUse }
  checkOwnMappings p type.scope path type.mappings

/-- The walk over a module type that does something else when the depth is used up. -/
def walkTypeBeyond : Nat → TypeDef → Path → Walk Unit
  | 0, type, path => beyond type path
  | depth + 1, type, path => walkBody p (walkTypeBeyond depth) type path

/-- The same, which also does something else for a module type that is being walked, one of those
`around`, or was walked before. -/
def walkTypeOnce : Nat → List String → TypeDef → Path → Walk Unit
  | 0, _, type, path => beyond type path
  | depth + 1, around, type, path => do
    if around.contains type.key || ((← get).typeUse.lookup type.key).isSome then again type path
    else walkBody p (walkTypeOnce depth (type.key :: around)) type path

/-- The walk over the picture with any walk over module types. -/
def walkPictureBy (onType : TypeDef → Path → Walk Unit) : Walk Unit := do
  let path ← rootPath p
  record p p.locals path (code p.code)
  record p p.locals path (definition p.definition)
  record p p.locals path (header p.header)
  walkModules p onType p.locals path p.submodules

def reportTypesBy (onType : TypeDef → Path → Walk Unit) : List TypeDef → Walk Unit
  | [] => pure ()
  | type :: rest => do
    if ← Walk.ofFault (p.isOwnFile type.originFile) then
      onType type [p.header.name, type.label]
      reportDeclarations true (type.ownDeclarations [p.header.name])
    reportTypesBy onType rest

/-- The whole analysis with any walk over module types. -/
def analysisBy (onType : TypeDef → Path → Walk Unit) : Walk (List Issue) := do
  modify fun s => { s with issues := [] }
  walkPictureBy p onType
  replayAliases
  reportRepeatedTypes p
  let path := [p.header.name]
  reportDeclarations true (Declaration.localsAt path p.locals)
  reportDeclarations false (Module.declarationsOf path p.submodules)
  reportTypesBy p onType p.types
  return (← get).issues

end Unbounded

section Depth

variable {p : Picture} {beyond again : TypeDef → Path → Walk Unit}

theorem walkType_succ (depth : Nat) (type : TypeDef) (path : Path) :
    walkType p (depth + 1) type path = walkBody p (walkType p depth) type path :=
  rfl

theorem walkPicture_eq (p : Picture) :
    walkPicture p = walkPictureBy p (walkType p p.types.length) :=
  rfl

theorem reportTypes_eq (types : List TypeDef) :
    reportTypes p types = reportTypesBy p (walkType p p.types.length) types := by
  induction types with
  | nil => rfl
  | cons type rest ih => rw [reportTypes, reportTypesBy, ih]

theorem analysis_eq_by (p : Picture) :
    analysis p = analysisBy p (walkType p p.types.length) := by
  rw [analysis, analysisBy, walkPicture_eq, reportTypes_eq]

variable {onType onType' : TypeDef → Path → Walk Unit} {type : TypeDef} {around : List TypeDef}

/-- The walk over modules depends only on the walks over the types of the instances in them. -/
theorem walkModules_congr :
    ∀ {modules : List Module} {scope : List Variable} {path : Path},
      (∀ {info type}, Module.Inside modules (.typed info) → p.type? info.typeName = some type →
        ∀ path, typeUse onType type path = typeUse onType' type path) →
      walkModules p onType scope path modules = walkModules p onType' scope path modules
  | [], _, _, _ => rfl
  | .single info inner :: rest, scope, path, h => by
    have hinner := @walkModules_congr inner info.scope (path ++ [info.header.name]) fun hm =>
      h (.single mem_cons_self hm)
    have hrest := @walkModules_congr rest scope path fun hm => h hm.cons
    simp only [walkModules, walkModule, hinner, hrest]
  | .frame info inner :: rest, scope, path, h => by
    have hinner := @walkModules_congr inner scope (path ++ [info.header.name]) fun hm =>
      h (.framed mem_cons_self hm)
    have hrest := @walkModules_congr rest scope path fun hm => h hm.cons
    simp only [walkModules, walkModule, hinner, hrest]
  | .typed info :: rest, scope, path, h => by
    have hrest := @walkModules_congr rest scope path fun hm => h hm.cons
    simp only [walkModules, walkModule, hrest]
    cases htype : p.type? info.typeName with
    | none => rfl
    | some type => simp only [h (.here mem_cons_self) htype]
  | .stray value :: rest, scope, path, h => by
    have hrest := @walkModules_congr rest scope path fun hm => h hm.cons
    simp only [walkModules, walkModule, hrest]

theorem walkBody_congr (h : ∀ {inner}, p.Instantiates type inner →
      ∀ path, typeUse onType inner path = typeUse onType' inner path) (path : Path) :
    walkBody p onType type path = walkBody p onType' type path := by
  rw [walkBody, walkBody, walkModules_congr fun hm htype => h ⟨_, hm, htype⟩]

/-- The types around one that is being walked: they contain it, also through others, and are
different from each other. -/
structure Around (p : Picture) (around : List TypeDef) (type : TypeDef) : Prop where
  mem : type ∈ p.types
  subset : around ⊆ p.types
  nodup : around.Nodup
  above : ∀ outer ∈ around, Relation.TransGen p.Instantiates outer type

namespace Around

variable {around : List TypeDef} {type inner : TypeDef}

theorem of_mem (h : type ∈ p.types) : Around p [] type :=
  ⟨h, nil_subset _, nodup_nil, by simp⟩

variable (h : Around p around type) (hac : p.Acyclic)

include h hac

theorem not_mem : type ∉ around :=
  fun hmem => hac type (h.above type hmem)

theorem below (hinner : p.Instantiates type inner) : Around p (type :: around) inner := by
  obtain ⟨info, -, htype⟩ := id hinner
  refine ⟨Picture.type?_mem htype, cons_subset.mpr ⟨h.mem, h.subset⟩,
    nodup_cons.mpr ⟨h.not_mem hac, h.nodup⟩, ?_⟩
  intro outer houter
  rcases mem_cons.mp houter with rfl | houter
  · exact .single hinner
  · exact (h.above outer houter).tail hinner

/-- There are fewer types around a type than there are types. -/
theorem length_lt : around.length < p.types.length := by
  have hnodup : (type :: around).Nodup := nodup_cons.mpr ⟨h.not_mem hac, h.nodup⟩
  have hsubset : type :: around ⊆ p.types := cons_subset.mpr ⟨h.mem, h.subset⟩
  exact (hnodup.subperm hsubset).length_le

end Around

/-- The depth is not used up while there are types left. -/
theorem walkTypeBeyond_eq (hac : p.Acyclic) {depth limit : Nat} (h : Around p around type)
    (hdepth : p.types.length ≤ around.length + depth)
    (hlimit : p.types.length ≤ around.length + limit) (path : Path) :
    walkTypeBeyond p beyond limit type path = walkType p depth type path := by
  have hlength := h.length_lt hac
  induction depth generalizing limit around type path with
  | zero => omega
  | succ depth ih =>
    obtain ⟨limit, rfl⟩ : ∃ n, limit = n + 1 := ⟨limit - 1, by omega⟩
    rw [walkType_succ, walkTypeBeyond]
    refine walkBody_congr (fun {inner} hinner path => ?_) path
    have haround := h.below hac hinner
    have hinnerEq : ∀ path, walkTypeBeyond p beyond limit inner path =
        walkType p depth inner path := by
      intro path
      refine ih haround ?_ ?_ path (haround.length_lt hac)
      · simp only [length_cons]
        omega
      · simp only [length_cons]
        omega
    simp only [typeUse, hinnerEq]

/-- What is done for a module type matters only where no use of it is known. -/
theorem typeUse_congr (h : ∀ path (s : State), s.typeUse.lookup type.key = none →
      (onType type path).run.run s = (onType' type path).run.run s) (path : Path) :
    typeUse onType type path = typeUse onType' type path := by
  funext s
  have hget : (get : Walk State) s = (.ok s, s) := rfl
  cases hlookup : s.typeUse.lookup type.key with
  | some use =>
    have hknown : ∀ onType, typeUse onType type path s = (.ok use, s) := by
      intro onType
      simp only [typeUse, bind, ExceptT.bind, ExceptT.mk, StateT.bind, ExceptT.bindCont, hget,
        hlookup]
      rfl
    rw [hknown, hknown]
  | none =>
    have hwalked : ∀ onType, typeUse onType type path s = (do
        onType type (path ++ [type.label])
        return (((← get).typeUse.lookup type.key).getD {}) : Walk ParameterUse) s := by
      intro onType
      simp only [typeUse, bind, ExceptT.bind, ExceptT.mk, StateT.bind, ExceptT.bindCont, hget,
        hlookup]
    rw [hwalked, hwalked]
    have hsame : onType type (path ++ [type.label]) s = onType' type (path ++ [type.label]) s :=
      h _ s hlookup
    simp only [bind, ExceptT.bind, ExceptT.mk, StateT.bind, hsame]

/-- Of two module types that are found by their names, the key tells which is which. -/
theorem eq_of_type? {name name' : String} {type' : TypeDef} (h : p.type? name = some type)
    (h' : p.type? name' = some type') (hkey : type.key = type'.key) : type = type' := by
  have hlower : Text.lower name = Text.lower name' := by
    rw [← Picture.type?_key h, ← Picture.type?_key h', hkey]
  have hsame : p.type? name = p.type? name' := by
    rw [Picture.type?, Picture.type?, hlower]
  rw [hsame, h'] at h
  exact (Option.some.inj h).symm

/-- A module type that is met in the picture is not being walked already. -/
theorem typeUse_once (hac : p.Acyclic) {depth limit : Nat} (h : Around p around type)
    (hnamed : ∀ outer ∈ type :: around, ∃ name, p.type? name = some outer)
    (hdepth : p.types.length ≤ around.length + depth)
    (hlimit : p.types.length ≤ around.length + limit) (path : Path) :
    typeUse (walkTypeOnce p beyond again limit (around.map TypeDef.key)) type path =
      typeUse (walkType p depth) type path := by
  have hlength := h.length_lt hac
  induction depth generalizing limit around type path with
  | zero => omega
  | succ depth ih =>
    obtain ⟨limit, rfl⟩ : ∃ n, limit = n + 1 := ⟨limit - 1, by omega⟩
    refine typeUse_congr (fun path s hlookup => ?_) path
    have hopen : (around.map TypeDef.key).contains type.key = false := by
      rw [← Bool.not_eq_true, contains_iff_mem, mem_map]
      rintro ⟨outer, houter, hkey⟩
      obtain ⟨name, hname⟩ := hnamed type mem_cons_self
      obtain ⟨name', hname'⟩ := hnamed outer (mem_cons_of_mem _ houter)
      exact h.not_mem hac (eq_of_type? hname' hname hkey ▸ houter)
    have hbegins : (walkTypeOnce p beyond again (limit + 1) (around.map TypeDef.key) type
        path).run.run s = (walkBody p (walkTypeOnce p beyond again limit
          (type.key :: around.map TypeDef.key)) type path).run.run s := by
      change ((if (around.map TypeDef.key).contains type.key ||
          (s.typeUse.lookup type.key).isSome then again type path else _) : Walk Unit).run.run s =
        _
      rw [hopen, hlookup]
      rfl
    rw [hbegins, walkType_succ, ← map_cons]
    refine congrArg (fun w : Walk Unit => w.run.run s)
      (walkBody_congr (fun {inner} hinner path => ?_) path)
    have haround := h.below hac hinner
    refine ih haround ?_ ?_ ?_ path (haround.length_lt hac)
    · intro outer houter
      rcases mem_cons.mp houter with rfl | houter
      · obtain ⟨info, -, htype⟩ := hinner
        exact ⟨_, htype⟩
      · exact hnamed outer houter
    · simp only [length_cons]
      omega
    · simp only [length_cons]
      omega

theorem walkPictureBy_congr (h : ∀ {name type}, p.type? name = some type →
      ∀ path, typeUse onType type path = typeUse onType' type path) :
    walkPictureBy p onType = walkPictureBy p onType' := by
  have hmodules : ∀ path, walkModules p onType p.locals path p.submodules =
      walkModules p onType' p.locals path p.submodules :=
    fun path => walkModules_congr fun _ htype => h htype
  simp only [walkPictureBy, hmodules]

theorem walkPicture_once (hac : p.Acyclic) {limit : Nat} (hlimit : p.types.length ≤ limit) :
    walkPictureBy p (walkTypeOnce p beyond again limit []) = walkPicture p := by
  refine walkPictureBy_congr fun {name type} htype path => ?_
  refine typeUse_once hac (.of_mem (Picture.type?_mem htype)) ?_ (by simp) (by simpa) path
  intro outer houter
  obtain rfl := mem_singleton.mp houter
  exact ⟨name, htype⟩

theorem reportTypesBy_congr {types : List TypeDef}
    (h : ∀ type ∈ types, ∀ path, onType type path = onType' type path) :
    reportTypesBy p onType types = reportTypesBy p onType' types := by
  induction types with
  | nil => rfl
  | cons type rest ih =>
    obtain ⟨htype, hrest⟩ := forall_mem_cons.mp h
    simp only [reportTypesBy, htype, ih hrest]

/-- The analysis never comes to the end of the depth. -/
theorem analysisBy_beyond (hac : p.Acyclic) {limit : Nat} (hlimit : p.types.length ≤ limit) :
    analysisBy p (walkTypeBeyond p beyond limit) = analysis p := by
  have hwalk : ∀ type ∈ p.types, ∀ path,
      walkTypeBeyond p beyond limit type path = walkType p p.types.length type path :=
    fun type htype path => walkTypeBeyond_eq hac (.of_mem htype) (by simp) (by simpa) path
  have hpicture : walkPictureBy p (walkTypeBeyond p beyond limit) = walkPicture p := by
    refine walkPictureBy_congr fun htype path => ?_
    simp only [typeUse, hwalk _ (Picture.type?_mem htype)]
  rw [analysis_eq_by, analysisBy, analysisBy, hpicture, walkPicture_eq,
    reportTypesBy_congr hwalk]

end Depth

section Entries

variable {p : Picture}

/-- The module types that were walked, each as often as it was. -/
def State.walkedTypes (s : State) : List String :=
  s.typeUse.map Prod.fst

/-- Types are only added to those walked, each once and none of those `around`. -/
structure AddsTypes (around : List String) (s s' : State) : Prop where
  new : ∀ key ∈ s'.walkedTypes, key ∈ s.walkedTypes ∨ key ∉ around
  nodup : s.walkedTypes.Nodup → s'.walkedTypes.Nodup

theorem addsTypes_closed (around : List String) :
    Closed (fun _ => True) (AddsTypes around) where
  refl := fun _ => ⟨fun _ h => .inl h, id⟩
  trans := by
    intro a b c hab hbc
    refine ⟨fun key hkey => ?_, fun h => hbc.nodup (hab.nodup h)⟩
    rcases hbc.new key hkey with hkey | hnew
    · exact hab.new key hkey
    · exact .inr hnew
  note _ _ _ _ := ⟨fun _ h => .inl h, id⟩
  report _ _ _ _ := ⟨fun _ h => .inl h, id⟩
  link _ _ _ _ := ⟨fun _ h => .inl h, id⟩

/-- A walk that fails. -/
def fails (_ : TypeDef) (_ : Path) : Walk Unit :=
  throw (.fault .badValue)

theorem walkTypeOnce_adds (depth : Nat) : ∀ {around : List String} {type : TypeDef} {path : Path}
    {s s' : State} {u : Unit}, (walkTypeOnce p fails fails depth around type path).Ends s u s' →
    AddsTypes around s s' := by
  induction depth with
  | zero =>
    intro around type path s s' u h
    exact absurd h ends_throw
  | succ depth ih =>
    intro around type path s s' u h
    rw [walkTypeOnce, ends_bind] at h
    obtain ⟨_, _, hget, h⟩ := h
    obtain ⟨rfl, rfl⟩ := ends_get.mp hget
    split at h
    · exact absurd h ends_throw
    · rename_i hfresh
      simp only [Bool.or_eq_true, not_or, Bool.not_eq_true, contains_eq_mem,
        decide_eq_false_iff_not, Option.isSome_eq_false_iff, Option.isNone_iff_eq_none] at hfresh
      obtain ⟨haround, hlookup⟩ := hfresh
      simp only [walkBody, ends_bind, ends_modify] at h
      obtain ⟨_, s₁, hdefinition, _, s₂, hcode, _, s₃, hmodules, _, s₄, hgroup, _, s₅, rfl,
        hown⟩ := h
      have hR := addsTypes_closed (type.key :: around)
      have hinner : AddsTypes (type.key :: around) _ s₄ :=
        hR.trans (hR.trans (hR.trans (hR.of_record hdefinition) (hR.of_record hcode))
          (hR.of_walkModules (fun _ _ _ _ _ _ _ hwalk => ih hwalk) (fun _ _ => trivial)
            hmodules)) (hR.of_record hgroup)
      have hnew : type.key ∉ s₄.walkedTypes := by
        intro hmem
        rcases hinner.new _ hmem with hold | habsent
        · obtain ⟨⟨key, use⟩, hentry, rfl⟩ := mem_map.mp hold
          obtain ⟨found, hfound⟩ := lookup_of_mem hentry
          rw [hfound] at hlookup
          cases hlookup
        · exact habsent mem_cons_self
      have hkeys : s'.walkedTypes = type.key :: s₄.walkedTypes := by
        rw [issues_reporting.of_checkOwnMappings hown]
        rfl
      constructor
      · intro key hkey
        rw [hkeys, mem_cons] at hkey
        rcases hkey with rfl | hkey
        · exact .inr haround
        · rcases hinner.new key hkey with hold | habsent
          · exact .inl hold
          · exact .inr fun h => habsent (mem_cons_of_mem _ h)
      · intro hnodup
        rw [hkeys]
        exact nodup_cons.mpr ⟨hnew, hinner.nodup hnodup⟩

/-- When the picture has been walked, every module type was walked at most once. -/
theorem walkPicture_nodup (hac : p.Acyclic) {marks : Marks} {u : Unit} {s : State}
    (h : (walkPicture p).Ends (State.start marks) u s) : s.walkedTypes.Nodup := by
  rw [← @walkPicture_once p fails fails hac _ (Nat.le_refl _), walkPictureBy] at h
  simp only [ends_bind] at h
  obtain ⟨path, _, hroot, _, _, hcode, _, _, hdefinition, _, _, hheader, hmodules⟩ := h
  obtain ⟨-, rfl⟩ := rootPath_ends hroot
  have hR := addsTypes_closed []
  have hadds := hR.trans (hR.trans (hR.trans (hR.of_record hcode) (hR.of_record hdefinition))
    (hR.of_record hheader)) (hR.of_walkModules
      (fun _ _ _ _ _ _ _ hwalk => walkTypeOnce_adds _ hwalk) (fun _ _ => trivial) hmodules)
  exact hadds.nodup nodup_nil

end Entries

section Links

variable {source target : Variable} {marks marks' : Marks}

/-- Going over the places of a source from the `i`-th on. Each is noted for the target at once, and
whether there is another one is seen only then. -/
inductive Passed (source target : Variable) : Nat → Marks → Marks → Prop
  | done {i : Nat} {marks : Marks} (h : (marks.get source).places[i]? = none) :
      Passed source target i marks marks
  | next {i : Nat} {marks marks' : Marks} {place : Path × Access}
      (h : (marks.get source).places[i]? = some place)
      (hrest : Passed source target (i + 1) (marks.note target place.2 place.1) marks') :
      Passed source target i marks marks'

/-- The same for one link after the other. -/
inductive PassedAll : List (Variable × Variable) → Marks → Marks → Prop
  | nil (marks : Marks) : PassedAll [] marks marks
  | cons {source target : Variable} {rest : List (Variable × Variable)}
      {marks between marks' : Marks} (h : Passed source target 0 marks between)
      (hrest : PassedAll rest between marks') : PassedAll ((source, target) :: rest) marks marks'

theorem get_note_of_ne (h : source.id ≠ target.id) (access : Access) (path : Path) :
    (marks.note target access path).get source = marks.get source := by
  rw [Marks.get_note, if_neg fun hsame => h hsame.1.symm]

/-- The places of another variable stay as they are meanwhile, so they come to an end. -/
theorem passed_noteAll (h : source.id ≠ target.id) {i : Nat} {rest : List (Path × Access)}
    (hrest : (marks.get source).places.drop i = rest) :
    Passed source target i marks (marks.noteAll target rest) := by
  induction rest generalizing i marks with
  | nil =>
    apply Passed.done
    rw [List.getElem?_eq_none_iff]
    exact drop_eq_nil_iff.mp hrest
  | cons place rest ih =>
    have hplace : (marks.get source).places[i]? = some place := by
      rw [← List.head?_drop, hrest]
      rfl
    have hafter : (marks.get source).places.drop (i + 1) = rest := by
      rw [← tail_drop, hrest]
      rfl
    refine .next hplace (ih ?_)
    rw [get_note_of_ne h]
    exact hafter

theorem passedAll_replay {links : List (Variable × Variable)}
    (h : ∀ link ∈ links, link.1.id ≠ link.2.id) (marks : Marks) :
    PassedAll links marks (replay links marks) := by
  induction links generalizing marks with
  | nil => exact .nil marks
  | cons link rest ih =>
    obtain ⟨hlink, hrest⟩ := forall_mem_cons.mp h
    obtain ⟨source, target⟩ := link
    rw [replay_cons]
    exact .cons (passed_noteAll hlink rfl) (ih hrest _)

end Links

/-- The analysis of a program in which no module type contains an instance of itself, and no
variable was linked to itself on the way through the picture. Whatever is done when the depth is
used up, the analysis is the same, for any depth from the number of module types on; so it is not
used up. Whatever is done for a module type whose walk has begun before, the way through the picture
is the same; so each type is walked at most once, and has at most one entry. Going over the places of
the sources, link after link, ends with the marks that the analysis goes on with. -/
theorem analysis_ends {p : Picture} (hac : p.Acyclic) {marks : Marks}
    (hlinks : ∀ link ∈ (walked p marks).aliases, link.1.id ≠ link.2.id) {limit : Nat}
    (hlimit : p.types.length ≤ limit) :
    (∀ beyond, analysisBy p (walkTypeBeyond p beyond limit) = analysis p) ∧
      (∀ beyond again,
        walkPictureBy p (walkTypeOnce p beyond again limit []) = walkPicture p) ∧
      (∀ s, (walkPicture p).Ends (State.start marks) () s → s.walkedTypes.Nodup) ∧
      PassedAll (walked p marks).aliases (walked p marks).marks (linked p marks) :=
  ⟨fun _ => analysisBy_beyond hac hlimit, fun _ _ => walkPicture_once hac hlimit,
    fun _ h => walkPicture_nodup hac h, passedAll_replay hlinks _⟩

/-! A program with two module types of one name, of which the last counts. `Station` has two instances
of it, and the picture has two stations, a valve, and a module whose parameter is connected. -/

def valveNamed (name : String) (id : Nat) : TypeDef :=
  ⟨name, .null, [integerVariable id "Level"], [], [], .null, .null, [], .null, .bool false, .null,
    .null, []⟩

def instanceOf (name type : String) : Module :=
  .typed ⟨plainHeader name, type, [plainMapping "Level" "Tank"], []⟩

def stationType : TypeDef :=
  ⟨"Station", .null, [], [], [instanceOf "Inlet" "valve", instanceOf "Outlet" "VALVE"], .null, .null,
    [], .null, .bool false, .null, .null, []⟩

def pipedPicture : Picture :=
  ⟨plainHeader "Plant", .text "BasePicture", .null, [],
    [valveNamed "Valve" 0, stationType, valveNamed "VALVE" 1], [integerVariable 2 "Tank"],
    [instanceOf "First" "Station", instanceOf "Second" "STATION", instanceOf "Drain" "Valve",
      .single unitModule []], .null, .null, .null, .null, []⟩

def pipedMarks : Marks :=
  ⟨#[{}, {}, {}, {}]⟩

theorem station_inside {info : InstanceInfo}
    (h : Module.Inside stationType.submodules (.typed info)) :
    info.typeName = "valve" ∨ info.typeName = "VALVE" := by
  rcases h.of_cons with hm | hm
  · cases hm.of_typed
    exact .inl rfl
  · cases hm.of_typed
    exact .inr rfl

theorem piped_type? {name : String} (h : name = "valve" ∨ name = "VALVE") :
    pipedPicture.type? name = some (valveNamed "VALVE" 1) := by
  have hlower : Text.lower name = (valveNamed "VALVE" 1).key := by
    rcases h with rfl | rfl <;> decide
  simp [Picture.type?, pipedPicture, hlower]

theorem piped_instantiates {outer inner : TypeDef} (houter : outer ∈ pipedPicture.types)
    (h : pipedPicture.Instantiates outer inner) :
    outer = stationType ∧ inner = valveNamed "VALVE" 1 := by
  obtain ⟨info, hinside, htype⟩ := h
  have hstation : outer = stationType := by
    simp only [pipedPicture, mem_cons, not_mem_nil, or_false] at houter
    rcases houter with rfl | rfl | rfl
    · exact absurd hinside Module.Inside.not_nil
    · rfl
    · exact absurd hinside Module.Inside.not_nil
  subst hstation
  rw [piped_type? (station_inside hinside)] at htype
  exact ⟨rfl, (Option.some.inj htype).symm⟩

theorem piped_acyclic : pipedPicture.Acyclic := by
  intro type h
  obtain ⟨outer, -, info, -, htype⟩ := Relation.TransGen.tail'_iff.mp h
  obtain ⟨inner, hfirst, hrest⟩ := Relation.TransGen.head'_iff.mp h
  obtain ⟨rfl, rfl⟩ := piped_instantiates (Picture.type?_mem htype) hfirst
  rcases Relation.ReflTransGen.cases_head hrest with hsame | ⟨next, hnext, -⟩
  · exact absurd (congrArg TypeDef.name hsame) (by decide)
  · exact absurd (congrArg TypeDef.name (piped_instantiates (by simp [pipedPicture]) hnext).1)
      (by decide)

theorem piped_ends :
    pipedPicture.Acyclic ∧
      (∀ beyond, analysisBy pipedPicture (walkTypeBeyond pipedPicture beyond 3) =
        analysis pipedPicture) ∧
      (∀ beyond again, walkPictureBy pipedPicture
        (walkTypeOnce pipedPicture beyond again 3 []) = walkPicture pipedPicture) ∧
      (walked pipedPicture pipedMarks).walkedTypes = ["station", "valve"] ∧
      PassedAll (walked pipedPicture pipedMarks).aliases
        (walked pipedPicture pipedMarks).marks (linked pipedPicture pipedMarks) := by
  have hlinks : (walked pipedPicture pipedMarks).aliases.all
      (fun link => link.1.id != link.2.id) = true := by
    decide
  obtain ⟨hbeyond, honce, -, hpassed⟩ := analysis_ends piped_acyclic
    (fun link hlink => by simpa using all_eq_true.mp hlinks link hlink) (Nat.le_refl 3)
  exact ⟨piped_acyclic, hbeyond, honce, by decide, hpassed⟩

end SattLine.Usage
