import Mathlib.Data.List.Perm.Subperm
import Mathlib.Logic.Relation
import SattLine.Program.Scope
import SattLine.Proofs.Lists

/-!
The shape of a program: what a module has of its own, which modules stand below another one, and
which module types have instances of which others.
-/

namespace SattLine

open List

namespace Module

/-- `Below modules m`: `m` is one of the modules, or stands below frames among them. -/
inductive Below : List Module → Module → Prop
  | here {modules m} (h : m ∈ modules) : Below modules m
  | framed {modules info inner m} (hf : .frame info inner ∈ modules) (h : Below inner m) :
      Below modules m

/-- `Inside modules m`: `m` is one of the modules, or stands at any depth inside one of them. -/
inductive Inside : List Module → Module → Prop
  | here {modules m} (h : m ∈ modules) : Inside modules m
  | single {modules info inner m} (hs : .single info inner ∈ modules) (h : Inside inner m) :
      Inside modules m
  | framed {modules info inner m} (hf : .frame info inner ∈ modules) (h : Inside inner m) :
      Inside modules m

variable {m : Module} {inner : List Module}

theorem Inside.cons {modules : List Module} {first : Module} (h : Inside modules m) :
    Inside (first :: modules) m := by
  cases h with
  | here h => exact .here (mem_cons_of_mem _ h)
  | single hs h => exact .single (mem_cons_of_mem _ hs) h
  | framed hf h => exact .framed (mem_cons_of_mem _ hf) h

theorem Inside.not_nil : ¬ Inside [] m := by
  intro h
  cases h with
  | here h => simp at h
  | single hs _ => simp at hs
  | framed hf _ => simp at hf

theorem Inside.of_cons {first : Module} {rest : List Module} (h : Inside (first :: rest) m) :
    Inside [first] m ∨ Inside rest m := by
  cases h with
  | here h =>
    rcases mem_cons.mp h with rfl | h
    · exact .inl (.here (mem_singleton_self _))
    · exact .inr (.here h)
  | single hs h =>
    rcases mem_cons.mp hs with rfl | hs
    · exact .inl (.single (mem_singleton_self _) h)
    · exact .inr (.single hs h)
  | framed hf h =>
    rcases mem_cons.mp hf with rfl | hf
    · exact .inl (.framed (mem_singleton_self _) h)
    · exact .inr (.framed hf h)

theorem Inside.of_single {info : SingleInfo} (h : Inside [.single info inner] m) :
    m = .single info inner ∨ Inside inner m := by
  cases h with
  | here h => exact .inl (mem_singleton.mp h)
  | single hs h =>
    cases mem_singleton.mp hs
    exact .inr h
  | framed hf _ => cases mem_singleton.mp hf

theorem Inside.of_frame {info : FrameInfo} {single : SingleInfo} {below : List Module}
    (h : Inside [.frame info inner] (.single single below)) :
    Inside inner (.single single below) := by
  cases h with
  | here h => cases mem_singleton.mp h
  | single hs _ => cases mem_singleton.mp hs
  | framed hf h =>
    cases mem_singleton.mp hf
    exact h

theorem Inside.of_typed {info : InstanceInfo} (h : Inside [.typed info] m) : m = .typed info := by
  cases h with
  | here h => exact mem_singleton.mp h
  | single hs _ => cases mem_singleton.mp hs
  | framed hf _ => cases mem_singleton.mp hf

theorem Inside.of_stray {value : Value} (h : Inside [.stray value] m) : m = .stray value := by
  cases h with
  | here h => exact mem_singleton.mp h
  | single hs _ => cases mem_singleton.mp hs
  | framed hf _ => cases mem_singleton.mp hf

end Module

/-- What a module has of its own: the variables in its scope, its code and the modules in it. -/
structure Body where
  parameters : List Variable
  locals : List Variable
  code : Value
  submodules : List Module

namespace Body

def scope (body : Body) : List Variable :=
  body.parameters ++ body.locals

end Body

def SingleInfo.body (info : SingleInfo) (submodules : List Module) : Body :=
  ⟨info.parameters, info.locals, info.code, submodules⟩

def TypeDef.body (type : TypeDef) : Body :=
  ⟨type.parameters, type.locals, type.code, type.submodules⟩

namespace Picture

def body (p : Picture) : Body :=
  ⟨[], p.locals, p.code, p.submodules⟩

/-- The bodies of a program: of the picture, of its module types, and of all modules in them. -/
inductive HasBody (p : Picture) : Body → Prop
  | picture : HasBody p p.body
  | module {info inner} (h : Module.Inside p.submodules (.single info inner)) :
      HasBody p (info.body inner)
  | type {type} (ht : type ∈ p.types) : HasBody p type.body
  | typeModule {type info inner} (ht : type ∈ p.types)
      (h : Module.Inside type.submodules (.single info inner)) : HasBody p (info.body inner)

/-- A module type that has an instance of another one in it, at any depth. -/
def Instantiates (p : Picture) (outer inner : TypeDef) : Prop :=
  ∃ info, Module.Inside outer.submodules (.typed info) ∧ p.type? info.typeName = some inner

/-- No module type contains an instance of itself, also not through others. -/
def Acyclic (p : Picture) : Prop :=
  ∀ type, ¬ Relation.TransGen p.Instantiates type type

/-- Names tell module types apart, and the variables of every scope. -/
structure Distinct (p : Picture) : Prop where
  types : (p.types.map TypeDef.key).Nodup
  scopes : ∀ body, p.HasBody body → (body.scope.map Variable.key).Nodup

variable {p : Picture} {name : String} {type : TypeDef}

theorem type?_mem (h : p.type? name = some type) : type ∈ p.types :=
  mem_reverse.mp (mem_of_find?_eq_some h)

theorem type?_key (h : p.type? name = some type) : type.key = Text.lower name := by
  simpa using List.find?_some h

theorem Distinct.eq_of_key (hp : p.Distinct) {other : TypeDef} (ht : type ∈ p.types)
    (ho : other ∈ p.types) (hkey : type.key = other.key) : type = other :=
  inj_on_of_nodup_map hp.types ht ho hkey

end Picture

theorem Variable.find?_key {scope : List Variable} (hscope : (scope.map Variable.key).Nodup)
    {v : Variable} (hv : v ∈ scope) : Variable.find? scope v.key = some v := by
  have hreverse : (scope.reverse.map Variable.key).Nodup := by
    rwa [map_reverse, nodup_reverse]
  exact (find?_key_eq_some_iff hreverse).mpr ⟨mem_reverse.mpr hv, rfl⟩

end SattLine
