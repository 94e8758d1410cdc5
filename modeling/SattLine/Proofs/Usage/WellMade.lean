import SattLine.Proofs.Usage.Returning

/-!
Well-made programs: the modules can be read, their connections have names, their code has the right
shape, and their graphics come from trees of the language. The conditions under which modules and
objects are enabled are operands: literals, references or operations. Main statement: such a
condition is of the wrong shape exactly if it is a number.
-/

namespace SattLine

namespace Usage

open Build (valueOf)
open Syntax (Tree IsOf lexemes)

section Shapes

variable {v : Value}

theorem faultless_map_ok {α : Type} {items : List α} {f : α → Occurrence} :
    Faultless (items.map fun a => .ok (f a)) := by
  simp [Faultless]

theorem faultless_accesses (h : ∃ name, baseName v = .ok name) (kinds : List Access)
    (reach : Reach) : Faultless (accesses kinds reach v) := by
  obtain ⟨name, hname⟩ := h
  rw [accesses, hname]
  cases name with
  | none => exact faultless_nil
  | some name => exact faultless_map_ok

theorem faultless_referenceAccesses (h : ∃ name, baseName v = .ok name) (kinds : List Access)
    (reach : Reach) : Faultless (referenceAccesses kinds reach v) := by
  unfold referenceAccesses
  split
  · exact faultless_accesses h kinds reach
  · exact faultless_nil

theorem not_faultless_strangeTail (v : Value) : ¬ Faultless (strangeTail v) := by
  unfold strangeTail
  split <;> exact not_faultless_cons_error

theorem faultless_namedRead (name : String) : Faultless (namedRead name) := by
  unfold namedRead
  split
  · exact faultless_nil
  · exact faultless_cons_ok.mpr faultless_nil

theorem faultless_expressions {items : List Value} :
    Faultless (expressions items) ↔ ∀ v ∈ items, Faultless (expression v) := by
  induction items with
  | nil => simp [expressions]
  | cons v rest ih => simp [expressions, ih]

end Shapes

/-- What an expression may be: a literal, a reference, or an operation in which nothing has the
wrong shape. -/
inductive Operand : Value → Prop
  | bool (b : Bool) : Operand (.bool b)
  | int (n : Int) : Operand (.int n)
  | real (x : Number.Double) : Operand (.real x)
  | text (s : String) : Operand (.text s)
  | reference {keys values : List Value} (href : isReference (.dict keys values) = true)
      (hname : ∃ name, baseName (.dict keys values) = .ok name) : Operand (.dict keys values)
  | operation {items : List Value} (h : Faultless (expression (.tuple items))) :
      Operand (.tuple items)

section Operands

variable {v : Value}

theorem Operand.isToken (h : Operand v) : v.isToken = false := by
  cases h <;> rfl

theorem Operand.faultless_tail_iff (h : Operand v) :
    Faultless (tail v) ↔ v.isNumber = false := by
  cases h with
  | text s => exact iff_of_true (faultless_namedRead _) rfl
  | @reference keys values href hname =>
    have hread : tail (.dict keys values) =
        accesses [.read] .scopeThenProgram (.dict keys values) := if_pos href
    rw [hread]
    exact iff_of_true (faultless_accesses hname _ _) rfl
  | operation h => exact iff_of_true h rfl
  | bool b =>
    have hstrange : tail (.bool b) = strangeTail (.bool b) := rfl
    rw [hstrange]
    exact iff_of_false (not_faultless_strangeTail _) (by simp [Value.isNumber])
  | int n =>
    have hstrange : tail (.int n) = strangeTail (.int n) := rfl
    rw [hstrange]
    exact iff_of_false (not_faultless_strangeTail _) (by simp [Value.isNumber])
  | real x =>
    have hstrange : tail (.real x) = strangeTail (.real x) := rfl
    rw [hstrange]
    exact iff_of_false (not_faultless_strangeTail _) (by simp [Value.isNumber])

/-- The condition of a part that may be enabled: there may be none. -/
def Condition (v : Value) : Prop :=
  v = .null ∨ Operand v

theorem Condition.faultless_tail_iff (h : Condition v) :
    Faultless (tail v) ↔ v.isNumber = false := by
  rcases h with rfl | h
  · exact iff_of_true (by simp [tail]) rfl
  · exact h.faultless_tail_iff

end Operands

/-- A drawing that a text of the language describes. -/
structure IsDrawing (v : Value) : Prop where
  described : ∃ tree, IsOf "moduledef" tree ∧ (∀ lexeme ∈ lexemes tree, lexeme.Lexed) ∧
    valueOf tree = .ok v
  shown : Faultless (shownBy v)

/-- An invocation with a condition and a scan group of the right shape. -/
structure WellInvoked (h : Header) : Prop where
  condition : Condition h.enableTail
  group : ∃ name, baseName h.groupConn = .ok name

/-- The graphics and the code of a module are of the right shape, its conditions apart. -/
structure WellBodied (definition code : Value) : Prop where
  definition : definition = .null ∨ IsDrawing definition
  code : Faultless (Usage.code code)

end Usage

open Usage in
/-- A module that can be read and is of the right shape, its conditions apart. -/
inductive Module.WellMade : Module → Prop
  | single {info : SingleInfo} {below : List Module} (hheader : WellInvoked info.header)
      (hbody : WellBodied info.definition info.code)
      (hmappings : ∀ c ∈ info.mappings, Legible c) : WellMade (.single info below)
  | frame {info : FrameInfo} {below : List Module} (hheader : WellInvoked info.header)
      (hbody : WellBodied info.definition info.code) : WellMade (.frame info below)
  | typed {info : InstanceInfo} (hheader : WellInvoked info.header)
      (hmappings : ∀ c ∈ info.mappings, Legible c) : WellMade (.typed info)

/-- All modules of a list are well made, and those inside them. -/
def Module.AllWellMade (modules : List Module) : Prop :=
  ∀ m, Module.Inside modules m → m.WellMade

open Usage in
structure TypeDef.WellMade (type : TypeDef) : Prop where
  body : WellBodied type.definition type.code
  modules : Module.AllWellMade type.submodules
  mappings : ∀ c ∈ type.mappings, Legible c
  group : ∃ name, baseName type.groupConn = .ok name
  origin : type.originFile = .null

open Usage in
structure Picture.WellMade (p : Picture) : Prop where
  named : p.absent.contains "header" = false
  header : WellInvoked p.header
  body : WellBodied p.definition p.code
  modules : Module.AllWellMade p.submodules
  types : ∀ type ∈ p.types, type.WellMade

/-- Going through a list succeeds if every step does, and gives what the steps give. -/
theorem mapM_made {ε α β : Type} {f : α → Except ε β} {P : β → Prop} {xs : List α}
    (h : ∀ x ∈ xs, ∃ y, f x = .ok y ∧ P y) : ∃ ys, xs.mapM f = .ok ys ∧ ∀ y ∈ ys, P y := by
  induction xs with
  | nil => exact ⟨[], rfl, by simp⟩
  | cons x rest ih =>
    obtain ⟨⟨y, hy, hP⟩, hrest⟩ := List.forall_mem_cons.mp h
    obtain ⟨ys, hys, hall⟩ := ih hrest
    refine ⟨y :: ys, ?_, List.forall_mem_cons.mpr ⟨hP, hall⟩⟩
    rw [List.mapM_cons, hy, hys]
    rfl

namespace Declaring

variable {α β : Type} {P : α → Prop} {Q : β → Prop}

/-- Reading succeeds, whatever variables have been declared before. -/
def Reads (reading : Declaring α) (P : α → Prop) : Prop :=
  ∀ marks, ∃ a marks', reading.run marks = .ok (a, marks') ∧ P a

theorem reads_pure {a : α} (h : P a) : Reads (pure a) P :=
  fun marks => ⟨a, marks, run_pure_eq_ok.mpr ⟨rfl, rfl⟩, h⟩

theorem reads_lift {given : Except Fault α} {a : α} (h : given = .ok a) :
    Reads (liftM given) (· = a) :=
  fun marks => ⟨a, marks, run_lift_eq_ok.mpr ⟨h, rfl⟩, rfl⟩

theorem Reads.bind {reading : Declaring α} {next : α → Declaring β} (h : Reads reading P)
    (hnext : ∀ a, P a → Reads (next a) Q) : Reads (reading >>= next) Q := by
  intro marks
  obtain ⟨a, between, ha, hP⟩ := h marks
  obtain ⟨b, marks', hb, hQ⟩ := hnext a hP between
  exact ⟨b, marks', run_bind_eq_ok.mpr ⟨a, between, ha, hb⟩, hQ⟩

theorem Reads.mapM {read : Value → Declaring α} {items : List Value}
    (h : ∀ v ∈ items, Reads (read v) P) : Reads (items.mapM read) (fun as => ∀ a ∈ as, P a) := by
  induction items with
  | nil => exact reads_pure (by simp)
  | cons v rest ih =>
    obtain ⟨hv, hrest⟩ := List.forall_mem_cons.mp h
    rw [List.mapM_cons]
    refine hv.bind fun a ha => (ih hrest).bind fun as has => ?_
    exact reads_pure (List.forall_mem_cons.mpr ⟨ha, has⟩)

end Declaring

namespace Value

open Declaring (Reads reads_pure reads_lift)

variable {items : List Value} {v : Value} {h : Header}

theorem name_of_isText (hname : v.isText = true) : ∃ s, v.name = .ok s := by
  obtain ⟨s, hs⟩ := Option.isSome_iff_exists.mp hname
  exact ⟨s, by rw [Value.name, hs]⟩

theorem reads_variables (h : ∀ v ∈ items, Reads v.toVariable (fun _ => True)) :
    Reads (Value.list items).toVariables (fun _ => True) := by
  refine (reads_lift (items_list items)).bind fun found hfound => ?_
  subst hfound
  exact fun marks => (Reads.mapM h marks).imp fun vs => Exists.imp fun _ hrun => ⟨hrun.1, trivial⟩

theorem toMappings_list {P : Mapping → Prop} (h : ∀ v ∈ items, ∃ m, v.toMapping = .ok m ∧ P m) :
    ∃ ms, (Value.list items).toMappings = .ok ms ∧ ∀ m ∈ ms, P m := by
  obtain ⟨ms, hms, hP⟩ := mapM_made h
  refine ⟨ms, ?_, hP⟩
  rw [toMappings, items_list]
  exact hms

/-- A value that is read as a well-made module. -/
def ReadsModule (v : Value) : Prop :=
  Reads v.toModule fun m => Module.AllWellMade [m]

theorem reads_modules (h : ∀ v ∈ items, ReadsModule v) :
    Reads (Value.list items).toModules Module.AllWellMade := by
  rw [toModules]
  induction items with
  | nil => exact reads_pure fun m hm => (hm.not_nil).elim
  | cons v rest ih =>
    obtain ⟨hv, hrest⟩ := List.forall_mem_cons.mp h
    rw [toModulesOf]
    refine hv.bind fun m hm => (ih hrest).bind fun ms hms => reads_pure ?_
    intro inner hinner
    rcases hinner.of_cons with hinner | hinner
    · exact hm inner hinner
    · exact hms inner hinner

open Usage

variable {header definition dateCode code typeName : Value} {parameters locals modules
  mappings : List Value}

section Modules

variable (hheader : header.toHeader = .ok h) (hinvoked : WellInvoked h)

include hheader hinvoked

theorem readsModule_single (hbody : WellBodied definition code)
    (hparameters : ∀ v ∈ parameters, Reads v.toVariable (fun _ => True))
    (hlocals : ∀ v ∈ locals, Reads v.toVariable (fun _ => True))
    (hmodules : ∀ v ∈ modules, ReadsModule v)
    (hmappings : ∀ v ∈ mappings, ∃ m, v.toMapping = .ok m ∧ Legible m) :
    ReadsModule (.element .singleModule [header, definition, dateCode, .list parameters,
      .list locals, .list modules, code, .list mappings]) := by
  obtain ⟨connections, hconnections, hlegible⟩ := toMappings_list hmappings
  unfold ReadsModule
  rw [toModule]
  simp only [hheader, hconnections]
  refine (reads_variables hparameters).bind fun ps _ => ?_
  refine (reads_variables hlocals).bind fun ls _ => ?_
  refine (reads_modules hmodules).bind fun below hbelow => ?_
  refine reads_pure fun m hm => ?_
  rcases hm.of_single with rfl | hm
  · exact .single hinvoked hbody hlegible
  · exact hbelow m hm

theorem readsModule_frame (hbody : WellBodied definition code)
    (hmodules : ∀ v ∈ modules, ReadsModule v) :
    ReadsModule (.element .frameModule [header, dateCode, .list modules, definition, code]) := by
  unfold ReadsModule
  rw [toModule]
  simp only [hheader]
  refine (reads_modules hmodules).bind fun below hbelow => ?_
  refine reads_pure fun m hm => ?_
  rcases hm.of_framed with rfl | hm
  · exact .frame hinvoked hbody
  · exact hbelow m hm

theorem readsModule_typed (hname : typeName.isText = true)
    (hmappings : ∀ v ∈ mappings, ∃ m, v.toMapping = .ok m ∧ Legible m) :
    ReadsModule (.element .typeInstance [header, typeName, .list mappings]) := by
  obtain ⟨connections, hconnections, hlegible⟩ := toMappings_list hmappings
  obtain ⟨s, htext⟩ := name_of_isText hname
  unfold ReadsModule
  rw [toModule]
  simp only [hheader, hconnections, htext]
  refine reads_pure fun m hm => ?_
  rw [hm.of_typed]
  exact .typed hinvoked hlegible

end Modules

/-- The value of an invocation, with a condition and a scan group of the right shape. -/
def IsHeader (v : Value) : Prop :=
  ∃ name coord layer enable zoomLimits zoomable condition connection isGlobal,
    v = .element .moduleHeader [name, coord, layer, enable, zoomLimits, zoomable, condition,
      connection, isGlobal] ∧ name.isText = true ∧ Condition condition ∧
        ∃ base, baseName connection = .ok base

theorem IsHeader.toHeader (h : IsHeader v) :
    ∃ invocation, v.toHeader = .ok invocation ∧ WellInvoked invocation := by
  obtain ⟨name, coord, layer, enable, zoomLimits, zoomable, condition, connection, isGlobal, rfl,
    hname, hcondition, hgroup⟩ := h
  obtain ⟨s, htext⟩ := name_of_isText hname
  refine ⟨⟨s, coord, layer, enable, zoomLimits, zoomable, condition, connection, isGlobal⟩, ?_,
    hcondition, hgroup⟩
  have hfield : (Value.element .moduleHeader [name, coord, layer, enable, zoomLimits, zoomable,
      condition, connection, isGlobal]).field "name" = .ok name := rfl
  rw [Value.toHeader, hfield]
  simp only [bind, Except.bind, htext]
  rfl

theorem reads_typeDef {connection isGlobal originLib : Value} (hname : typeName.isText = true)
    (hbody : WellBodied definition code)
    (hparameters : ∀ v ∈ parameters, Reads v.toVariable (fun _ => True))
    (hlocals : ∀ v ∈ locals, Reads v.toVariable (fun _ => True))
    (hmodules : ∀ v ∈ modules, ReadsModule v) (hgroup : ∃ base, baseName connection = .ok base) :
    Reads (Value.element .typeDef [typeName, dateCode, .list parameters, .list locals,
      .list modules, definition, code, .list [], connection, isGlobal, .null,
      originLib]).toTypeDef TypeDef.WellMade := by
  obtain ⟨s, htext⟩ := name_of_isText hname
  refine (reads_lift htext).bind fun _ _ => ?_
  refine (reads_variables hparameters).bind fun ps _ => ?_
  refine (reads_variables hlocals).bind fun ls _ => ?_
  refine (reads_modules hmodules).bind fun below hbelow => ?_
  refine (@reads_lift _ (Value.list []).toMappings [] rfl).bind fun ms hms => reads_pure ?_
  subst hms
  exact ⟨hbody, hbelow, by simp, hgroup, rfl⟩

theorem reads_picture {pictureName position originFile originLib parseTree : Value}
    {records types : List Value} (hheader : IsHeader header) (hbody : WellBodied definition code)
    (htypes : ∀ v ∈ types, Reads v.toTypeDef TypeDef.WellMade)
    (hlocals : ∀ v ∈ locals, Reads v.toVariable (fun _ => True))
    (hmodules : ∀ v ∈ modules, ReadsModule v) :
    Reads (Value.element .basePicture [header, pictureName, position, .list records, .list types,
      .list locals, .list modules, definition, code, originFile, originLib,
      parseTree]).toPicture Picture.WellMade := by
  obtain ⟨invocation, hinvocation, hinvoked⟩ := hheader.toHeader
  unfold toPicture
  simp only [hinvocation]
  refine (reads_lift (items_list records)).bind fun _ _ => ?_
  refine (reads_lift (items_list types)).bind fun found hfound => ?_
  subst hfound
  refine (Reads.mapM htypes).bind fun ts hts => ?_
  refine (reads_variables hlocals).bind fun ls _ => ?_
  refine (reads_modules hmodules).bind fun below hbelow => ?_
  refine reads_pure ⟨?_, hinvoked, hbody, hbelow, hts⟩
  have habsent : ∀ items : List Value, (Value.list items).isAbsent = false := by
    intro items
    simp [Value.isAbsent, Value.elements, Except.toOption]
  simp [absentAmong, habsent, Except.toOption]

end Value

end SattLine
