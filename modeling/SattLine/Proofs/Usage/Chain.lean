import SattLine.Proofs.Usage.Position

/-!
Use through chains of parameters. A module uses a variable in its own code, in the code of frames
in it, or by connecting it to a parameter that a module in it uses; what a type without definition
does with a connected variable is not known, so that the connection counts as every use. Main
statement: a walk over modules marks each variable that is used so, provided that what the walk
remembers of the module types is complete.
-/

namespace SattLine.Usage

open Walk

/-- A connection of the parameter `target` to the variable `source` around the module. -/
structure Connects (m : Mapping) (target source : String) : Prop where
  isLocal : m.isGlobal.holds = false
  target : Names m.target target
  source : Names m.source source

/-- `Uses p access body x`: the module with that body accesses its variable `x`, directly or
through a chain of parameters. -/
inductive Uses (p : Picture) (access : Access) : Body → String → Prop
  | code {body x} (h : OccursInCode access body.code x) : Uses p access body x
  | frame {body info inner x} (hm : Module.Below body.submodules (.frame info inner))
      (h : OccursInCode access info.code x) : Uses p access body x
  | single {body info inner m v x} (hm : Module.Below body.submodules (.single info inner))
      (hc : m ∈ info.mappings) (hv : v ∈ info.parameters) (hx : Connects m v.key x)
      (h : Uses p access (info.body inner) v.key) : Uses p access body x
  | typed {body info type m v x} (hm : Module.Below body.submodules (.typed info))
      (ht : p.type? info.typeName = some type) (hc : m ∈ info.mappings)
      (hv : v ∈ type.parameters) (hx : Connects m v.key x)
      (h : Uses p access type.body v.key) : Uses p access body x
  | external {body info m x} (hm : Module.Below body.submodules (.typed info))
      (ht : p.type? info.typeName = none) (hc : m ∈ info.mappings)
      (hlocal : m.isGlobal.holds = false) (hx : Names m.source x) : Uses p access body x

/-- A body that is nothing but modules. -/
def bodyOf (modules : List Module) : Body :=
  ⟨[], [], .null, modules⟩

section Cases

variable {p : Picture} {access : Access} {x : String} {m first : Module} {rest : List Module}

/-- What a module does with the variable `x` around it, the modules below a frame apart. -/
def Passes (p : Picture) (access : Access) (x : String) : Module → Prop
  | .frame info _ => OccursInCode access info.code x
  | .single info inner => ∃ m ∈ info.mappings, ∃ v ∈ info.parameters, Connects m v.key x ∧
      Uses p access (info.body inner) v.key
  | .typed info =>
    (∃ type, p.type? info.typeName = some type ∧ ∃ m ∈ info.mappings, ∃ v ∈ type.parameters,
      Connects m v.key x ∧ Uses p access type.body v.key) ∨
    (p.type? info.typeName = none ∧ ∃ m ∈ info.mappings, m.isGlobal.holds = false ∧
      Names m.source x)
  | .stray _ => False

variable {body : Body}

theorem uses_iff : Uses p access body x ↔ OccursInCode access body.code x ∨
    ∃ m, Module.Below body.submodules m ∧ Passes p access x m := by
  constructor
  · intro h
    cases h with
    | code h => exact .inl h
    | frame hm h => exact .inr ⟨_, hm, h⟩
    | single hm hc hv hx h => exact .inr ⟨_, hm, _, hc, _, hv, hx, h⟩
    | typed hm ht hc hv hx h => exact .inr ⟨_, hm, .inl ⟨_, ht, _, hc, _, hv, hx, h⟩⟩
    | external hm ht hc hlocal hx => exact .inr ⟨_, hm, .inr ⟨ht, _, hc, hlocal, hx⟩⟩
  · rintro (h | ⟨m, hm, h⟩)
    · exact .code h
    · cases m with
      | frame info inner => exact .frame hm h
      | single info inner =>
        obtain ⟨_, hc, _, hv, hx, h⟩ := h
        exact .single hm hc hv hx h
      | typed info =>
        rcases h with ⟨_, ht, _, hc, _, hv, hx, h⟩ | ⟨ht, _, hc, hlocal, hx⟩
        · exact .typed hm ht hc hv hx h
        · exact .external hm ht hc hlocal hx
      | stray value => exact h.elim

theorem uses_bodyOf {modules : List Module} :
    Uses p access (bodyOf modules) x ↔ ∃ m, Module.Below modules m ∧ Passes p access x m := by
  refine uses_iff.trans (or_iff_right fun h => ?_)
  cases h

theorem Uses.code_or_below (h : Uses p access body x) :
    OccursInCode access body.code x ∨ Uses p access (bodyOf body.submodules) x :=
  (uses_iff.mp h).imp_right uses_bodyOf.mpr

theorem Uses.cons (h : Uses p access (bodyOf (first :: rest)) x) :
    Uses p access (bodyOf [first]) x ∨ Uses p access (bodyOf rest) x := by
  simp only [uses_bodyOf] at h ⊢
  obtain ⟨m, hm, h⟩ := h
  cases hm with
  | here hm =>
    rcases List.mem_cons.mp hm with rfl | hm
    · exact .inl ⟨m, .here (List.mem_singleton_self _), h⟩
    · exact .inr ⟨m, .here hm, h⟩
  | framed hf hm =>
    rcases List.mem_cons.mp hf with rfl | hf
    · exact .inl ⟨m, .framed (List.mem_singleton_self _) hm, h⟩
    · exact .inr ⟨m, .framed hf hm, h⟩

theorem Uses.of_one (h : Uses p access (bodyOf [first]) x) : Passes p access x first ∨
    ∃ info inner, first = .frame info inner ∧ Uses p access (bodyOf inner) x := by
  obtain ⟨m, hm, h⟩ := uses_bodyOf.mp h
  cases hm with
  | here hm =>
    cases List.mem_singleton.mp hm
    exact .inl h
  | framed hf hm => exact .inr ⟨_, _, (List.mem_singleton.mp hf).symm, uses_bodyOf.mpr ⟨m, hm, h⟩⟩

theorem Uses.of_nil : ¬ Uses p access (bodyOf []) x := by
  intro h
  obtain ⟨m, hm, -⟩ := uses_bodyOf.mp h
  cases hm with
  | here hm | framed hm _ => cases hm

end Cases

/-- Whether the parameter of that name in small letters is accessed so. -/
def ParameterUse.Has (use : ParameterUse) (access : Access) (key : String) : Prop :=
  match access with
  | .read => key ∈ use.reads
  | .write => key ∈ use.writes

variable {access : Access}

theorem ParameterUse.has_ofMarks {marks : Marks} {parameters : List Variable} {v : Variable}
    (hv : v ∈ parameters) (h : marks.Has v access) :
    (ofMarks marks parameters).Has access v.key := by
  cases access with
  | read | write => exact List.mem_map_of_mem (List.mem_filter.mpr ⟨hv, h⟩)

theorem ParameterUse.Has.mem_passedOn {use : ParameterUse} {key : String} (h : use.Has access key) :
    access ∈ passedOn use (some key) := by
  cases access with
  | read =>
    have hkey : key ∈ use.reads := h
    simp [passedOn, hkey]
  | write =>
    have hkey : key ∈ use.writes := h
    simp [passedOn, hkey]

/-- What the walk remembers of the module types is complete: each entry has every parameter of its
type that is used. -/
def Informed (p : Picture) (s : State) : Prop :=
  ∀ type ∈ p.types, ∀ use, (type.key, use) ∈ s.typeUse →
    ∀ access, ∀ v ∈ type.parameters, Uses p access type.body v.key → use.Has access v.key

theorem Informed.of_eq {p : Picture} {s s' : State} (h : Informed p s)
    (heq : s'.typeUse = s.typeUse) : Informed p s' := by
  intro type ht use huse
  exact h type ht use (heq ▸ huse)

section Mappings

variable {p : Picture} {s s' : State} {path : Path} {u : Unit} {scope : List Variable}
  {x : String} {v : Variable} {access : Access}

variable {m : Mapping}

theorem sourceOf_eq_some (hx : Names m.source x) (hplain : '.' ∉ x.toList)
    (hv : Variable.find? scope x = some v) : sourceOf p scope m = .ok (some v) := by
  simp only [sourceOf, (hx.hasBase hplain).baseName, hx.isReference, ↓reduceIte, bind, Except.bind,
    hv]
  rfl

theorem passOn_has {use : ParameterUse} {target : String}
    (h : (passOn p (some use) scope path m).Ends s u s') (hx : Connects m target x)
    (htarget : '.' ∉ target.toList) (huse : use.Has access target) (hplain : '.' ∉ x.toList)
    (hv : Variable.find? scope x = some v) (hsize : v.id < s.marks.entries.size) :
    s'.marks.Has v access := by
  simp only [passOn, hx.isLocal, (hx.target.hasBase htarget).baseName,
    sourceOf_eq_some hx.source hplain hv, ends_bind, ends_ofFault] at h
  obtain ⟨_, _, ⟨-, rfl⟩, _, _, ⟨htarget, rfl⟩, h⟩ := h
  cases htarget
  simp only [Bool.false_eq_true, ↓reduceIte, ends_bind, ends_ofFault] at h
  obtain ⟨_, _, ⟨hsource, rfl⟩, h⟩ := h
  cases hsource
  exact markAll_has h hsize huse.mem_passedOn

/-- The source for a module type that is not known is marked in both ways. -/
theorem passOn_unknown_has (h : (passOn p none scope path m).Ends s u s')
    (hlocal : m.isGlobal.holds = false) (hx : Names m.source x) (hplain : '.' ∉ x.toList)
    (hv : Variable.find? scope x = some v) (hsize : v.id < s.marks.entries.size) :
    s'.marks.Has v access := by
  simp only [passOn, hlocal, sourceOf_eq_some hx hplain hv, ends_bind, ends_ofFault] at h
  obtain ⟨_, _, ⟨-, rfl⟩, _, _, ⟨-, rfl⟩, h⟩ := h
  simp only [Bool.false_eq_true, ↓reduceIte, ends_bind, ends_ofFault] at h
  obtain ⟨_, _, ⟨hsource, rfl⟩, h⟩ := h
  cases hsource
  refine markAll_has h hsize ?_
  cases access <;> simp

/-- What one mapping of a list marks stays marked. -/
theorem passOnAll_keeps {use : Option ParameterUse} {mappings : List Mapping} (hm : m ∈ mappings)
    (hsize : v.id < s.marks.entries.size)
    (hone : ∀ {t t' : State}, (passOn p use scope path m).Ends t u t' →
      v.id < t.marks.entries.size → t'.marks.Has v access)
    (h : (passOnAll p use scope path mappings).Ends s u s') : s'.marks.Has v access := by
  induction mappings generalizing s with
  | nil => simp at hm
  | cons first rest ih =>
    simp only [passOnAll, ends_bind] at h
    obtain ⟨_, t, hfirst, hrest⟩ := h
    rcases List.mem_cons.mp hm with rfl | hm
    · exact (passOnAll_grows hrest).marks.keeps v access (hone hfirst hsize)
    · exact ih hm ((passOn_grows hfirst).marks.size_eq ▸ hsize) hrest

end Mappings

end SattLine.Usage
