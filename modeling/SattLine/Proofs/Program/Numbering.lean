import SattLine.Program.OfValue
import SattLine.Proofs.Program.Structure

/-!
The numbers of variables. Reading a program numbers its variables one after the other, so that no
two variables of the program share an entry of the marks and every variable has one.
-/

namespace SattLine

open List

namespace Declaring

variable {α β : Type} {marks marks' : Marks}

theorem run_bind_eq_ok {first : Declaring α} {next : α → Declaring β} {b : β} :
    (first >>= next).run marks = .ok (b, marks') ↔
      ∃ a between, first.run marks = .ok (a, between) ∧
        (next a).run between = .ok (b, marks') := by
  rw [StateT.run_bind]
  cases first.run marks with
  | error f => simp [bind, Except.bind]
  | ok given =>
    obtain ⟨a, between⟩ := given
    simp [bind, Except.bind]

variable {a : α} {declared : α → List Variable}

theorem run_pure_eq_ok {b : α} :
    (pure a : Declaring α).run marks = .ok (b, marks') ↔ a = b ∧ marks = marks' := by
  rw [StateT.run_pure]
  simp [pure, Except.pure]

theorem run_lift_eq_ok {given : Except Fault α} :
    (liftM given : Declaring α).run marks = .ok (a, marks') ↔ given = .ok a ∧ marks = marks' := by
  cases given with
  | error f => simp [liftM, monadLift, MonadLift.monadLift, StateT.lift, StateT.run, bind,
      Except.bind]
  | ok b => simp [liftM, monadLift, MonadLift.monadLift, StateT.lift, StateT.run, bind,
      Except.bind, pure, Except.pure]

/-- `Numbers marks marks' vs`: between the two states just the variables `vs` are declared, and
they have the next numbers in turn. -/
structure Numbers (marks marks' : Marks) (vs : List Variable) : Prop where
  ids : vs.map Variable.id = List.range' marks.next vs.length
  next : marks'.next = marks.next + vs.length

theorem Numbers.nil (marks : Marks) : Numbers marks marks [] :=
  ⟨rfl, rfl⟩

theorem Numbers.append {between : Marks} {vs ws : List Variable} (hv : Numbers marks between vs)
    (hw : Numbers between marks' ws) : Numbers marks marks' (vs ++ ws) := by
  refine ⟨?_, ?_⟩
  · rw [map_append, hv.ids, hw.ids, hv.next, List.range'_append_1, length_append]
  · rw [hw.next, hv.next, length_append, Nat.add_assoc]

/-- Reading so declares just the variables of what is read. -/
def Declares (reading : Declaring α) (declared : α → List Variable) : Prop :=
  ∀ ⦃marks a marks'⦄, reading.run marks = .ok (a, marks') → Numbers marks marks' (declared a)

theorem Declares.mapM {read : Value → Declaring α} (hread : ∀ v, Declares (read v) declared)
    (items : List Value) : Declares (items.mapM read) (List.flatMap declared) := by
  induction items with
  | nil =>
    intro marks as marks' h
    rw [mapM_nil, run_pure_eq_ok] at h
    obtain ⟨rfl, rfl⟩ := h
    exact .nil _
  | cons first rest ih =>
    intro marks as marks' h
    simp only [mapM_cons, run_bind_eq_ok, run_pure_eq_ok] at h
    obtain ⟨a, between, hfirst, others, _, hrest, rfl, rfl⟩ := h
    exact (hread first hfirst).append (ih hrest)

theorem declares_nothing (h : declared a = []) : Declares (pure a) declared := by
  intro marks b marks' hrun
  obtain ⟨rfl, rfl⟩ := run_pure_eq_ok.mp hrun
  rw [h]
  exact .nil _

end Declaring

namespace Module

mutual

/-- The variables that a module and the modules in it declare. -/
def allVariables : Module → List Variable
  | .single info inner => info.parameters ++ info.locals ++ allVariablesOf inner
  | .frame _ inner => allVariablesOf inner
  | .typed _ => []
  | .stray _ => []

def allVariablesOf : List Module → List Variable
  | [] => []
  | m :: rest => allVariables m ++ allVariablesOf rest

end

variable {modules : List Module}

theorem mem_allVariablesOf_of_mem {v : Variable} {m : Module} (hm : m ∈ modules)
    (hv : v ∈ m.allVariables) : v ∈ allVariablesOf modules := by
  induction modules with
  | nil => simp at hm
  | cons head tail ih =>
    rw [allVariablesOf]
    rcases mem_cons.mp hm with rfl | hm
    · exact mem_append_left _ hv
    · exact mem_append_right _ (ih hm)

theorem Inside.scope_subset {info : SingleInfo} {inner : List Module}
    (h : Inside modules (.single info inner)) :
    (info.body inner).scope ⊆ allVariablesOf modules := by
  generalize hm : Module.single info inner = m at h
  induction h with
  | here hmem =>
    subst hm
    intro v hv
    refine mem_allVariablesOf_of_mem hmem ?_
    rw [allVariables]
    exact mem_append_left _ hv
  | single hs _ ih =>
    intro v hv
    refine mem_allVariablesOf_of_mem hs ?_
    rw [allVariables]
    exact mem_append_right _ (ih hm hv)
  | framed hf _ ih =>
    intro v hv
    refine mem_allVariablesOf_of_mem hf ?_
    rw [allVariables]
    exact ih hm hv

mutual

theorem declarations_declared (path : List String) (m : Module) :
    (m.declarations path).map Declaration.declared = m.allVariables := by
  cases m with
  | single info inner =>
    have hinner := declarationsOf_declared (path ++ [info.header.name]) inner
    simp [declarations, allVariables, Declaration.parametersAt, Declaration.localsAt, hinner,
      Function.comp_def]
  | frame info inner =>
    rw [declarations, allVariables]
    exact declarationsOf_declared _ inner
  | typed info => rfl
  | stray value => rfl

theorem declarationsOf_declared (path : List String) (modules : List Module) :
    (declarationsOf path modules).map Declaration.declared = allVariablesOf modules := by
  cases modules with
  | nil => rfl
  | cons first rest =>
    rw [declarationsOf, allVariablesOf, map_append, declarations_declared path first,
      declarationsOf_declared path rest]

end

end Module

namespace TypeDef

/-- The variables that a module type and the modules in it declare. -/
def allVariables (type : TypeDef) : List Variable :=
  type.parameters ++ type.locals ++ Module.allVariablesOf type.submodules

end TypeDef

namespace Picture

/-- The variables of the program in the order of their numbers. -/
def allVariables (p : Picture) : List Variable :=
  p.types.flatMap TypeDef.allVariables ++ p.locals ++ Module.allVariablesOf p.submodules

theorem HasBody.scope_subset {p : Picture} {body : Body} (h : p.HasBody body) :
    body.scope ⊆ p.allVariables := by
  have hmodules : Module.allVariablesOf p.submodules ⊆ p.allVariables :=
    subset_append_right _ _
  have htypes : ∀ {type}, type ∈ p.types → type.allVariables ⊆ p.allVariables := by
    intro type ht v hv
    exact mem_append_left _ (mem_append_left _ (mem_flatMap.mpr ⟨type, ht, hv⟩))
  cases h with
  | picture =>
    intro v hv
    exact mem_append_left _ (mem_append_right _ hv)
  | module h => exact List.Subset.trans h.scope_subset hmodules
  | type ht => exact List.Subset.trans (subset_append_left _ _) (htypes ht)
  | typeModule ht h =>
    have hinner := List.Subset.trans (subset_append_right _ _) (htypes ht)
    exact List.Subset.trans h.scope_subset hinner

end Picture

namespace Declaring

variable {marks marks' : Marks} {vs : List Variable}

theorem Numbers.nodup (h : Numbers marks marks' vs) : (vs.map Variable.id).Nodup := by
  rw [h.ids]
  exact nodup_range'

theorem Numbers.id_lt (h : Numbers marks marks' vs) {v : Variable} (hv : v ∈ vs) :
    v.id < marks'.next := by
  have hid : v.id ∈ vs.map Variable.id := mem_map_of_mem hv
  rw [h.ids, mem_range'_1] at hid
  rw [h.next]
  exact hid.2

end Declaring

namespace Value

open Declaring

theorem items_list (items : List Value) : (Value.list items).items = .ok items := by
  cases items <;> rfl

theorem items_tuple (items : List Value) : (Value.tuple items).items = .ok items := by
  cases items <;> rfl

theorem toVariable_declares (v : Value) : Declares v.toVariable fun w => [w] := by
  intro marks w marks' h
  unfold toVariable at h
  split at h
  · simp only [run_bind_eq_ok, run_lift_eq_ok, run_pure_eq_ok] at h
    obtain ⟨_, _, hget, _, _, hset, name, _, ⟨-, rfl⟩, type, _, ⟨-, rfl⟩, rfl, rfl⟩ := h
    cases hget
    cases hset
    refine ⟨rfl, ?_⟩
    simp [Marks.next, Marks.declare]
  · cases h

theorem toVariables_declares (v : Value) : Declares v.toVariables fun vs => vs := by
  intro marks vs marks' h
  simp only [toVariables, run_bind_eq_ok, run_lift_eq_ok] at h
  obtain ⟨items, _, ⟨-, rfl⟩, h⟩ := h
  simpa using Declares.mapM toVariable_declares items h

theorem allVariablesOf_stray (values : List Value) :
    Module.allVariablesOf (values.map Module.stray) = [] := by
  induction values with
  | nil => rfl
  | cons first rest ih => simpa [Module.allVariablesOf, Module.allVariables] using ih

theorem toModules_declares (v : Value) : Declares v.toModules Module.allVariablesOf := by
  refine (toModule.mutual_induct (fun v => Declares v.toModule Module.allVariables)
    (fun v => Declares v.toModules Module.allVariablesOf)
    (fun vs => Declares (toModulesOf vs) Module.allVariablesOf)
    ?single ?singleStray ?frame ?frameStray ?typed ?typedStray ?stray ?list ?tuple ?dict ?other
    ?nil ?cons).2.1 v
  case single =>
    intro header definition dateCode parameters locals submodules code mappings known connections
      hmappings hheader ih marks m marks' h
    simp only [toModule, hheader, hmappings, run_bind_eq_ok, run_pure_eq_ok] at h
    obtain ⟨ps, _, hparameters, ls, _, hlocals, below, _, hbelow, rfl, rfl⟩ := h
    exact ((toVariables_declares _ hparameters).append (toVariables_declares _ hlocals)).append
      (ih hbelow)
  case singleStray =>
    intro header definition dateCode parameters locals submodules code mappings hunread
    unfold toModule
    split
    · exact (hunread _ _ ‹_› ‹_›).elim
    · exact declares_nothing rfl
  case frame =>
    intro header dateCode submodules definition code known hheader ih marks m marks' h
    simp only [toModule, hheader, run_bind_eq_ok, run_pure_eq_ok] at h
    obtain ⟨below, _, hbelow, rfl, rfl⟩ := h
    exact ih hbelow
  case frameStray =>
    intro header dateCode submodules definition code fault hheader
    simp only [toModule, hheader]
    exact declares_nothing rfl
  case typed =>
    intro header typeName mappings known name connections hmappings hname hheader
    simp only [toModule, hheader, hname, hmappings]
    exact declares_nothing rfl
  case typedStray =>
    intro header typeName mappings hunread
    unfold toModule
    split
    · exact (hunread _ _ _ ‹_› ‹_› ‹_›).elim
    · exact declares_nothing rfl
  case stray =>
    intro v hsingle hframe htyped
    rw [toModule]
    · exact declares_nothing rfl
    all_goals assumption
  case list =>
    intro modules ih
    rw [toModules]
    exact ih
  case tuple =>
    intro modules ih
    rw [toModules]
    exact ih
  case dict =>
    intro modules values ih
    rw [toModules]
    exact ih
  case other =>
    intro v hlist htuple hdict marks modules marks' h
    rw [toModules] at h
    · simp only [run_bind_eq_ok, run_lift_eq_ok, run_pure_eq_ok] at h
      obtain ⟨items, _, ⟨-, rfl⟩, rfl, rfl⟩ := h
      rw [allVariablesOf_stray]
      exact .nil _
    all_goals assumption
  case nil =>
    rw [toModulesOf]
    exact declares_nothing rfl
  case cons =>
    intro v rest ihfirst ihrest marks modules marks' h
    simp only [toModulesOf, run_bind_eq_ok, run_pure_eq_ok] at h
    obtain ⟨first, _, hfirst, others, _, hothers, rfl, rfl⟩ := h
    exact (ihfirst hfirst).append (ihrest hothers)

theorem toTypeDef_declares (v : Value) : Declares v.toTypeDef TypeDef.allVariables := by
  intro marks type marks' h
  unfold toTypeDef at h
  split at h
  · simp only [run_bind_eq_ok, run_lift_eq_ok, run_pure_eq_ok] at h
    obtain ⟨name, _, ⟨-, rfl⟩, ps, _, hparameters, ls, _, hlocals, below, _, hbelow, ms, _,
      ⟨-, rfl⟩, rfl, rfl⟩ := h
    exact ((toVariables_declares _ hparameters).append (toVariables_declares _ hlocals)).append
      (toModules_declares _ hbelow)
  · cases h

theorem toPicture_declares (v : Value) : Declares v.toPicture Picture.allVariables := by
  intro marks p marks' h
  unfold toPicture at h
  split at h
  · simp only [run_bind_eq_ok, run_lift_eq_ok, run_pure_eq_ok] at h
    obtain ⟨records, _, ⟨-, rfl⟩, items, _, ⟨-, rfl⟩, types, _, htypes, ls, _, hlocals, below, _,
      hbelow, rfl, rfl⟩ := h
    exact ((Declares.mapM toTypeDef_declares items htypes).append
      (toVariables_declares _ hlocals)).append (toModules_declares _ hbelow)
  · cases h

end Value

end SattLine
