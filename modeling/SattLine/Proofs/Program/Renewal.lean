import SattLine.Program.Renewal
import SattLine.Proofs.Program.Uses

/-!
Renewed values. Main statements: renewing a value changes nothing but the uses of its variables, to
which it adds those found since, and the renewed value reads as the same program with the marks as
they are now.
-/

namespace SattLine

open List

namespace Marks

/-- The marks are those of the first variables of the others. -/
def Starts (marks other : Marks) : Prop :=
  marks.entries.toList <+: other.entries.toList

variable {a b c : Marks} {usage : Usage}

theorem Starts.refl (marks : Marks) : marks.Starts marks :=
  prefix_refl _

theorem Starts.trans (hab : a.Starts b) (hbc : b.Starts c) : a.Starts c :=
  List.IsPrefix.trans hab hbc

theorem starts_declare (marks : Marks) (usage : Usage) : marks.Starts (marks.declare usage) := by
  simp [Starts, declare]

/-- What is declared next is the entry that follows. -/
theorem starts_declare_iff (h : a.Starts b) :
    (a.declare usage).Starts b ↔ b.entries[a.next]? = some usage := by
  obtain ⟨rest, hrest⟩ := h
  have hentry : b.entries[a.next]? = rest.head? := by
    rw [← Array.getElem?_toList, ← hrest, next, ← Array.length_toList,
      List.getElem?_append_right (Nat.le_refl _), Nat.sub_self, List.head?_eq_getElem?]
  rw [hentry, Starts, declare, Array.toList_push, ← hrest, prefix_append_right_inj]
  cases rest with
  | nil => simp
  | cons first rest => simp [cons_prefix_cons, eq_comm]

theorem Starts.eq (h : a.Starts b) (hnext : a.next = b.next) : a = b := by
  cases a
  cases b
  simp only [Starts, next] at h hnext
  rw [mk.injEq, ← Array.toList_inj]
  exact h.eq_of_length (by simpa using hnext)

end Marks

namespace Value

open Declaring

/-- Nothing is changed but that variables have more uses. -/
abbrev Grown : Value → Value → Prop :=
  UsesChanged Usage.Continues

variable {α β γ δ : Type} {P : Usage → Prop} {first mid now : Marks} {v : Value}

/-- Reading a value goes on from the marks. If they are among the first ones, the value renewed up
to now reads as the same among the marks of now, and differs from the value and from the one renewed
up to some time before only in that variables have more uses. -/
def ReadsBack (first mid now : Marks) (grown : β → β → Prop) (read : β → Declaring α)
    (renew : Marks → β → Renewing β) (v : β) : Prop :=
  ∀ ⦃marks a marks'⦄, (read v).run marks = .ok (a, marks') → marks.Starts marks' ∧
    ∀ later : Marks, marks'.Starts first → later.Starts now → later.next = marks.next →
      ∃ before w later', Id.run ((renew mid v).run marks.next) = (before, marks'.next) ∧
        Id.run ((renew now v).run marks.next) = (w, marks'.next) ∧ grown v w ∧ grown before w ∧
        (read w).run later = .ok (a, later') ∧ later'.Starts now ∧ later'.next = marks'.next

/-- Later marks add their uses behind those added before. -/
theorem newPlaces_append (hmid : first.Continues mid) (hnow : mid.Continues now) (id : Nat) :
    ∃ more, newPlaces first now id = newPlaces first mid id ++ more := by
  obtain ⟨places, hplaces⟩ := hmid.entries id
  obtain ⟨more, hmore⟩ := hnow.entries id
  refine ⟨more, ?_⟩
  rw [newPlaces, newPlaces, hmore, hplaces, Usage.places_noteAll, Usage.places_noteAll,
    append_assoc, drop_left, drop_left]

variable {own : List Value} {marks : Marks}

theorem run_toVariable_variableWith {usage : Usage} {x : Variable} {marks' : Marks}
    (hlength : own.length = 9)
    (h : (variableWith own usage).toVariable.run marks = .ok (x, marks')) :
    marks' = marks.declare usage ∧ ∀ other later, later.next = marks.next →
      (variableWith own other).toVariable.run later = .ok (x, later.declare other) := by
  obtain ⟨a, b, c, d, e, f, g, i, j, rfl⟩ := eq_nine hlength
  simp only [variableWith, cons_append, nil_append, toVariable, run_bind_eq_ok,
    run_lift_eq_ok, run_pure_eq_ok] at h
  obtain ⟨_, _, hget, _, _, hset, name, _, ⟨hname, rfl⟩, type, _, ⟨htype, rfl⟩, rfl, rfl⟩ := h
  cases hget
  cases hset
  refine ⟨by simp [toPlaces_placesValue, holds], ?_⟩
  intro other later hnext
  simp only [variableWith, cons_append, nil_append, toVariable, run_bind_eq_ok,
    run_lift_eq_ok, run_pure_eq_ok]
  refine ⟨_, _, rfl, _, _, rfl, name, _, ⟨hname, rfl⟩, type, _, ⟨htype, rfl⟩, ?_, ?_⟩
  · rw [hnext]
  · simp [toPlaces_placesValue, holds]

theorem eq_of_toVariable_eq_ok {found : Variable × Marks} (h : v.toVariable.run marks = .ok found) :
    ∃ fields, v = .element .variable fields := by
  unfold toVariable at h
  split at h
  · exact ⟨_, rfl⟩
  · cases h

theorem eq_of_toTypeDef_eq_ok {found : TypeDef × Marks} (h : v.toTypeDef.run marks = .ok found) :
    ∃ fields, v = .element .typeDef fields := by
  unfold toTypeDef at h
  split at h
  · exact ⟨_, rfl⟩
  · cases h

theorem run_renewVariable (hlength : own.length = 9) (usage : Usage) (first now : Marks)
    (id : Nat) :
    Id.run ((renewVariable first now (variableWith own usage)).run id) =
      (variableWith own (usage.noteAll (newPlaces first now id)), id + 1) := by
  rw [← foldl_noted hlength]
  rfl

theorem toVariable_readsBack (hmid : first.Continues mid) (hnow : mid.Continues now)
    (hv : AllUses P v) : ReadsBack first mid now Grown toVariable (renewVariable first) v := by
  intro marks x marks' h
  obtain ⟨fields, rfl⟩ := eq_of_toVariable_eq_ok h
  obtain ⟨own, usage, hlength, -, -, heq⟩ := hv.of_variable
  rw [heq] at h ⊢
  obtain ⟨rfl, hagain⟩ := run_toVariable_variableWith hlength h
  refine ⟨marks.starts_declare usage, fun later hfirst hlater hnext => ?_⟩
  have hentry : first.entries[marks.next]? = some usage :=
    (Marks.starts_declare_iff ((marks.starts_declare usage).trans hfirst)).mp hfirst
  have hold : first.entries.getD marks.next {} = usage := by
    rw [Array.getD_eq_getD_getElem?, hentry]
    rfl
  have hsince := hmid.trans hnow
  obtain ⟨more, hmore⟩ := hsince.entries marks.next
  rw [hold] at hmore
  have hplaces : newPlaces first now marks.next = more := by
    rw [newPlaces, hold, hmore, Usage.places_noteAll, drop_left]
  have hsize : marks.next < now.entries.size := by
    have hbound := (Array.getElem?_eq_some_iff.mp hentry).1
    have hsame := hsince.next_eq
    simp only [Marks.next] at hsame hbound ⊢
    omega
  have hentry' : now.entries[later.next]? = some (usage.noteAll more) := by
    rw [hnext, ← hmore, Array.getD_eq_getD_getElem?, Array.getElem?_eq_getElem hsize]
    rfl
  have hcount : (marks.declare usage).next = marks.next + 1 := by
    simp [Marks.next, Marks.declare]
  obtain ⟨others, hothers⟩ := newPlaces_append hmid hnow marks.next
  refine ⟨variableWith own (usage.noteAll (newPlaces first mid marks.next)),
    variableWith own (usage.noteAll more), later.declare (usage.noteAll more), ?_, ?_,
    .declared hlength ⟨more, rfl⟩, .declared hlength ⟨others, ?_⟩, hagain _ later hnext,
    (Marks.starts_declare_iff hlater).mpr hentry', ?_⟩
  · rw [run_renewVariable hlength, hcount]
  · rw [run_renewVariable hlength, hcount, hplaces]
  · rw [← hplaces, hothers, Usage.noteAll_append]
  · simpa [Marks.next, Marks.declare] using hnext

/-- What holds of the items of a value that is neither a list nor a tuple. -/
theorem AllUses.items_atoms (hv : AllUses P v) (hlist : ∀ items, v ≠ .list items)
    (htuple : ∀ items, v ≠ .tuple items) {items : List Value} (h : v.items = .ok items) :
    ∀ x ∈ items, x.isAtom = true := by
  unfold Value.items at h
  split at h
  · cases v with
    | list items => exact absurd rfl (hlist items)
    | tuple items => exact absurd rfl (htuple items)
    | dict keys values =>
      cases h
      exact hv.of_dict
    | text s | token kind s =>
      cases h
      simp [letters, isAtom]
    | _ => cases h
  · cases h
    simp

section Items

variable {read : Value → Declaring α} {renew : Marks → Value → Renewing Value} {items : List Value}

theorem ReadsBack.mapM (h : ∀ v ∈ items, ReadsBack first mid now Grown read renew v) :
    ReadsBack first mid now (List.Forall₂ Grown) (List.mapM read) (fun m => List.mapM (renew m))
      items := by
  induction items with
  | nil =>
    intro marks as marks' hrun
    rw [mapM_nil, run_pure_eq_ok] at hrun
    obtain ⟨rfl, rfl⟩ := hrun
    refine ⟨.refl _, fun later _ hlater hnext => ⟨[], [], later, ?_, ?_, .nil, .nil, ?_, hlater,
      hnext⟩⟩
    · simp
    · simp
    · rw [mapM_nil, run_pure_eq_ok]
      exact ⟨rfl, rfl⟩
  | cons v rest ih =>
    obtain ⟨hv, hrest⟩ := forall_mem_cons.mp h
    intro marks as marks' hrun
    simp only [mapM_cons, run_bind_eq_ok, run_pure_eq_ok] at hrun
    obtain ⟨a, between, hfirst, others, _, hothers, rfl, rfl⟩ := hrun
    obtain ⟨hstart, hback⟩ := hv hfirst
    obtain ⟨hstart', hback'⟩ := ih hrest hothers
    refine ⟨hstart.trans hstart', fun later hamong hlater hnext => ?_⟩
    obtain ⟨x, w, later₁, hbefore, hafter, hgrown, hsince, hread, hlater₁, hnext₁⟩ :=
      hback later (hstart'.trans hamong) hlater hnext
    obtain ⟨xs, ws, later₂, hbefore', hafter', hgrown', hsince', hread', hlater₂, hnext₂⟩ :=
      hback' later₁ hamong hlater₁ hnext₁
    refine ⟨x :: xs, w :: ws, later₂, ?_, ?_, .cons hgrown hgrown', .cons hsince hsince', ?_,
      hlater₂, hnext₂⟩
    · simp [mapM_cons, StateT.run_bind, hbefore, hbefore']
    · simp [mapM_cons, StateT.run_bind, hafter, hafter']
    · simp only [mapM_cons, run_bind_eq_ok, run_pure_eq_ok]
      exact ⟨a, later₁, hread, others, later₂, hread', rfl, rfl⟩

theorem ReadsBack.of_nothing
    (hread : ∀ {marks a marks'}, (read v).run marks = .ok (a, marks') → marks' = marks ∧
      ∀ later, (read v).run later = .ok (a, later))
    (hrenew : ∀ m, renew m v = pure v) : ReadsBack first mid now Grown read renew v := by
  intro marks a marks' hrun
  obtain ⟨rfl, hagain⟩ := hread hrun
  refine ⟨.refl _, fun later _ hlater hnext => ⟨v, v, later, ?_, ?_, .same v, .same v,
    hagain later, hlater, hnext⟩⟩
  · rw [hrenew]
    rfl
  · rw [hrenew]
    rfl

variable {renewAll : Marks → Value → Renewing Value}

/-- A list or a tuple is read and renewed item by item. -/
theorem ReadsBack.wrap {wrap : List Value → Value} {readAll : Value → Declaring (List α)}
    (hread : ∀ xs, readAll (wrap xs) = xs.mapM read)
    (hrenew : ∀ m, renewAll m (wrap items) = do return wrap (← items.mapM (renew m)))
    (hwrap : ∀ {xs ys}, List.Forall₂ Grown xs ys → Grown (wrap xs) (wrap ys))
    (h : ∀ v ∈ items, ReadsBack first mid now Grown read renew v) :
    ReadsBack first mid now Grown readAll renewAll (wrap items) := by
  intro marks a marks' hrun
  rw [hread] at hrun
  obtain ⟨hstart, hback⟩ := ReadsBack.mapM h hrun
  refine ⟨hstart, fun later hamong hlater hnext => ?_⟩
  obtain ⟨xs, ws, later', hbefore, hafter, hgrown, hsince, hagain, hlater', hnext'⟩ :=
    hback later hamong hlater hnext
  refine ⟨wrap xs, wrap ws, later', ?_, ?_, hwrap hgrown, hwrap hsince, ?_, hlater', hnext'⟩
  · rw [hrenew]
    simp [hbefore]
  · rw [hrenew]
    simp [hafter]
  · rw [hread]
    exact hagain

theorem lift_ok (a : α) : (liftM (.ok a : Except Fault α) : Declaring α) = pure a :=
  rfl

theorem read_items (hitems : v.items = .ok items) :
    (do (← v.items).mapM read : Declaring (List α)) = items.mapM read := by
  rw [hitems]
  rfl

/-- Each item of a value is read, and only elements can be. -/
theorem ReadsBack.eachItem (hv : AllUses P v)
    (hatom : ∀ x, x.isAtom = true → ∀ marks found, (read x).run marks ≠ .ok found)
    (h : ∀ v, AllUses P v → ReadsBack first mid now Grown read renew v) :
    ReadsBack first mid now Grown (fun v => do (← v.items).mapM read : Value → Declaring (List α))
      (fun m => renewItems (renew m)) v := by
  by_cases hlist : ∃ items, v = .list items
  · obtain ⟨items, rfl⟩ := hlist
    exact .wrap (fun xs => read_items (items_list xs)) (fun _ => rfl) .of_list
      fun x hx => h x (hv.of_list x hx)
  by_cases htuple : ∃ items, v = .tuple items
  · obtain ⟨items, rfl⟩ := htuple
    exact .wrap (fun xs => read_items (items_tuple xs)) (fun _ => rfl) .of_tuple
      fun x hx => h x (hv.of_tuple x hx)
  have hrenew : ∀ m, renewItems (renew m) v = pure v := by
    intro m
    unfold renewItems
    split
    · exact absurd ⟨_, rfl⟩ hlist
    · exact absurd ⟨_, rfl⟩ htuple
    · rfl
  refine .of_nothing ?_ hrenew
  intro marks as marks' hrun
  simp only [run_bind_eq_ok, run_lift_eq_ok] at hrun
  obtain ⟨items, _, ⟨hitems, rfl⟩, hrun⟩ := hrun
  have hatoms := hv.items_atoms (fun xs hxs => hlist ⟨xs, hxs⟩) (fun xs hxs => htuple ⟨xs, hxs⟩)
    hitems
  cases items with
  | nil =>
    rw [mapM_nil, run_pure_eq_ok] at hrun
    obtain ⟨rfl, rfl⟩ := hrun
    refine ⟨rfl, fun later => ?_⟩
    rw [read_items hitems]
    rfl
  | cons x rest =>
    simp only [mapM_cons, run_bind_eq_ok] at hrun
    obtain ⟨a, between, hx, -⟩ := hrun
    exact absurd hx (hatom x (hatoms x mem_cons_self) _ _)

theorem ReadsBack.of_pure {a : α} (hread : read v = pure a) (hrenew : ∀ m, renew m v = pure v) :
    ReadsBack first mid now Grown read renew v := by
  refine .of_nothing (fun {marks b marks'} hrun => ?_) hrenew
  rw [hread, run_pure_eq_ok] at hrun
  obtain ⟨rfl, rfl⟩ := hrun
  refine ⟨rfl, fun later => ?_⟩
  rw [hread]
  rfl

/-- Three values that are read one after the other to make something of them, and renewed in their
place. -/
theorem ReadsBack.three {readAll : Value → Declaring δ} (put : Value → Value → Value → Value)
    {make : Value → Value → Value → α → β → γ → δ} {read₁ : Value → Declaring α}
    {read₂ : Value → Declaring β} {read₃ : Value → Declaring γ}
    {renew₁ renew₂ renew₃ : Marks → Value → Renewing Value} {v₁ v₂ v₃ : Value}
    (hread : ∀ x₁ x₂ x₃, readAll (put x₁ x₂ x₃) = do
      return make x₁ x₂ x₃ (← read₁ x₁) (← read₂ x₂) (← read₃ x₃))
    (hrenew : ∀ m, renewAll m (put v₁ v₂ v₃) = do
      return put (← renew₁ m v₁) (← renew₂ m v₂) (← renew₃ m v₃))
    (hput : ∀ {x₁ x₂ x₃ y₁ y₂ y₃}, Grown x₁ y₁ → Grown x₂ y₂ → Grown x₃ y₃ →
      Grown (put x₁ x₂ x₃) (put y₁ y₂ y₃))
    (hmake : ∀ {y₁ y₂ y₃}, Grown v₁ y₁ → Grown v₂ y₂ → Grown v₃ y₃ →
      make y₁ y₂ y₃ = make v₁ v₂ v₃) (h₁ : ReadsBack first mid now Grown read₁ renew₁ v₁)
    (h₂ : ReadsBack first mid now Grown read₂ renew₂ v₂)
    (h₃ : ReadsBack first mid now Grown read₃ renew₃ v₃) :
    ReadsBack first mid now Grown readAll renewAll (put v₁ v₂ v₃) := by
  intro marks a marks' hrun
  simp only [hread, run_bind_eq_ok, run_pure_eq_ok] at hrun
  obtain ⟨a₁, marks₁, hrun₁, a₂, marks₂, hrun₂, a₃, _, hrun₃, rfl, rfl⟩ := hrun
  obtain ⟨hstart₁, hback₁⟩ := h₁ hrun₁
  obtain ⟨hstart₂, hback₂⟩ := h₂ hrun₂
  obtain ⟨hstart₃, hback₃⟩ := h₃ hrun₃
  refine ⟨(hstart₁.trans hstart₂).trans hstart₃, fun later hamong hlater hnext => ?_⟩
  obtain ⟨x₁, w₁, later₁, hbefore₁, hafter₁, hgrown₁, hsince₁, hread₁, hlater₁, hnext₁⟩ :=
    hback₁ later ((hstart₂.trans hstart₃).trans hamong) hlater hnext
  obtain ⟨x₂, w₂, later₂, hbefore₂, hafter₂, hgrown₂, hsince₂, hread₂, hlater₂, hnext₂⟩ :=
    hback₂ later₁ (hstart₃.trans hamong) hlater₁ hnext₁
  obtain ⟨x₃, w₃, later₃, hbefore₃, hafter₃, hgrown₃, hsince₃, hread₃, hlater₃, hnext₃⟩ :=
    hback₃ later₂ hamong hlater₂ hnext₂
  refine ⟨put x₁ x₂ x₃, put w₁ w₂ w₃, later₃, ?_, ?_, hput hgrown₁ hgrown₂ hgrown₃,
    hput hsince₁ hsince₂ hsince₃, ?_, hlater₃, hnext₃⟩
  · rw [hrenew]
    simp [hbefore₁, hbefore₂, hbefore₃]
  · rw [hrenew]
    simp [hafter₁, hafter₂, hafter₃]
  · simp only [hread, run_bind_eq_ok, run_pure_eq_ok]
    exact ⟨a₁, later₁, hread₁, a₂, later₂, hread₂, a₃, later₃, hread₃,
      by rw [hmake hgrown₁ hgrown₂ hgrown₃], rfl⟩

end Items

/-- Whether a list is left out does not depend on uses. -/
theorem UsesChanged.isAbsent_eq {R : Usage → Usage → Prop} {w : Value} (h : UsesChanged R v w) :
    w.isAbsent = v.isAbsent := by
  cases h with
  | same => rfl
  | declared _ _ => rfl
  | list _ _ | tuple _ _ => simp [isAbsent, elements, Except.toOption]
  | element _ _ _ => rfl

theorem absentAmong_cons (name : String) (v : Value) (rest : List (String × Value)) :
    absentAmong ((name, v) :: rest) =
      (if v.isAbsent then [name] else []) ++ absentAmong rest := by
  cases h : v.isAbsent <;> simp [absentAmong, h]

/-- An element of which three fields have grown that stand one behind the other. -/
theorem grown_three {kind : Element} (hkind : kind ≠ .variable) (front rest : List Value)
    {x₁ x₂ x₃ y₁ y₂ y₃ : Value} (h₁ : Grown x₁ y₁) (h₂ : Grown x₂ y₂) (h₃ : Grown x₃ y₃) :
    Grown (.element kind (front ++ x₁ :: x₂ :: x₃ :: rest))
      (.element kind (front ++ y₁ :: y₂ :: y₃ :: rest)) :=
  .of_element hkind (rel_append (UsesChanged.unchanged front)
    (.cons h₁ (.cons h₂ (.cons h₃ (UsesChanged.unchanged rest)))))

theorem toModulesOf_atoms {keys : List Value} (h : ∀ key ∈ keys, key.isAtom = true) :
    toModulesOf keys = pure (keys.map .stray) := by
  induction keys with
  | nil => rw [toModulesOf, map_nil]
  | cons key rest ih =>
    obtain ⟨hkey, hrest⟩ := forall_mem_cons.mp h
    have hstray : key.toModule = pure (.stray key) := by
      cases key with
      | element _ _ => cases hkey
      | _ => rw [toModule] <;> simp
    rw [toModulesOf, hstray, ih hrest]
    simp

theorem toModulesOf_eq (modules : List Value) : toModulesOf modules = modules.mapM toModule := by
  induction modules with
  | nil => rw [toModulesOf, mapM_nil]
  | cons v rest ih => rw [toModulesOf, mapM_cons, ih]

theorem renewModulesOf_eq (first now : Marks) (modules : List Value) :
    renewModulesOf first now modules = modules.mapM (renewModule first now) := by
  induction modules with
  | nil => rw [renewModulesOf, mapM_nil]
  | cons v rest ih => rw [renewModulesOf, mapM_cons, ih]

section Readers

variable (hmid : first.Continues mid) (hnow : mid.Continues now) (hv : AllUses P v)

include hmid hnow hv

theorem toVariables_readsBack : ReadsBack first mid now Grown toVariables
      (fun m => renewItems (renewVariable first m)) v := by
  refine .eachItem hv ?_ fun x => toVariable_readsBack hmid hnow
  intro x hatom marks found hrun
  obtain ⟨fields, rfl⟩ := eq_of_toVariable_eq_ok hrun
  cases hatom

theorem toModules_readsBack : ReadsBack first mid now Grown toModules (renewModules first) v := by
  revert hv
  refine (toModule.mutual_induct
    (fun v => AllUses P v → ReadsBack first mid now Grown toModule (renewModule first) v)
    (fun v => AllUses P v → ReadsBack first mid now Grown toModules (renewModules first) v)
    (fun vs => ∀ v ∈ vs, AllUses P v →
      ReadsBack first mid now Grown toModule (renewModule first) v)
    ?single ?singleStray ?frame ?frameStray ?typed ?typedStray ?stray ?list ?tuple ?dict ?other
    ?nil ?cons).2.1 v
  case single =>
    intro header definition dateCode parameters locals submodules code mappings known connections
      hmappings hheader ih hv
    have hfields := hv.of_element (by simp)
    simp only [mem_cons, not_mem_nil, or_false, forall_eq_or_imp, forall_eq] at hfields
    obtain ⟨-, -, -, hparameters, hlocals, hsubmodules, -, -⟩ := hfields
    refine ReadsBack.three (fun x₁ x₂ x₃ => .element .singleModule
      [header, definition, dateCode, x₁, x₂, x₃, code, mappings])
      (fun x₁ x₂ x₃ => by simp only [toModule, hheader, hmappings]; rfl) (fun m => ?_)
      (grown_three (by simp) [_, _, _] [_, _]) (fun h₁ h₂ h₃ => ?_)
      (toVariables_readsBack hmid hnow hparameters) (toVariables_readsBack hmid hnow hlocals)
      (ih hsubmodules)
    · simp only [renewModule, hheader, hmappings]
    · simp only [absentAmong_cons, h₁.isAbsent_eq, h₂.isAbsent_eq, h₃.isAbsent_eq]
  case singleStray =>
    intro header definition dateCode parameters locals submodules code mappings hunread _
    refine .of_pure (a := .stray (.element .singleModule
      [header, definition, dateCode, parameters, locals, submodules, code, mappings]))
      ?_ fun m => ?_
    · unfold toModule
      split
      · exact (hunread _ _ ‹_› ‹_›).elim
      · rfl
    · unfold renewModule
      split
      · exact (hunread _ _ ‹_› ‹_›).elim
      · rfl
  case frame =>
    intro header dateCode submodules definition code known hheader ih hv marks m marks' hrun
    have hsubmodules := hv.of_element (by simp) submodules (by simp)
    simp only [toModule, hheader, run_bind_eq_ok, run_pure_eq_ok] at hrun
    obtain ⟨below, _, hbelow, rfl, rfl⟩ := hrun
    obtain ⟨hstart, hback⟩ := ih hsubmodules hbelow
    refine ⟨hstart, fun later hamong hlater hnext => ?_⟩
    obtain ⟨x, w, later', hbefore, hafter, hgrown, hsince, hread, hlater', hnext'⟩ :=
      hback later hamong hlater hnext
    have hframe : ∀ {a b}, Grown a b → Grown
        (.element .frameModule [header, dateCode, a, definition, code])
        (.element .frameModule [header, dateCode, b, definition, code]) :=
      fun h => .of_element (by simp)
        (.cons (.same _) (.cons (.same _) (.cons h (UsesChanged.unchanged _))))
    refine ⟨_, _, later', ?_, ?_, hframe hgrown, hframe hsince, ?_, hlater', hnext'⟩
    · simp [renewModule, hheader, hbefore]
    · simp [renewModule, hheader, hafter]
    · simp only [toModule, hheader, run_bind_eq_ok, run_pure_eq_ok]
      refine ⟨below, later', hread, ?_, rfl⟩
      simp only [absentAmong_cons, hgrown.isAbsent_eq]
  case frameStray =>
    intro header dateCode submodules definition code fault hheader _
    refine .of_pure (a := .stray (.element .frameModule
      [header, dateCode, submodules, definition, code])) ?_ fun m => ?_
    · simp only [toModule, hheader]
    · simp only [renewModule, hheader]
  case typed =>
    intro header typeName mappings known name connections hmappings hname hheader _
    refine .of_pure (a := .typed ⟨known, name, connections,
      absentAmong [("parametermappings", mappings)]⟩) ?_ fun m => by rw [renewModule] <;> simp
    simp only [toModule, hheader, hname, hmappings]
  case typedStray =>
    intro header typeName mappings hunread _
    refine .of_pure (a := .stray (.element .typeInstance [header, typeName, mappings])) ?_
      fun m => by rw [renewModule] <;> simp
    unfold toModule
    split
    · exact (hunread _ _ _ ‹_› ‹_› ‹_›).elim
    · rfl
  case stray =>
    intro v hsingle hframe htyped _
    refine .of_pure (a := .stray v) ?_ fun m => ?_
    · rw [toModule]
      all_goals assumption
    · rw [renewModule]
      all_goals assumption
  case list =>
    intro modules ih hv
    exact .wrap (fun xs => by rw [toModules, toModulesOf_eq])
      (fun m => by rw [renewModules, renewModulesOf_eq]) .of_list
      fun v hmem => ih v hmem (hv.of_list v hmem)
  case tuple =>
    intro modules ih hv
    exact .wrap (fun xs => by rw [toModules, toModulesOf_eq])
      (fun m => by rw [renewModules, renewModulesOf_eq]) .of_tuple
      fun v hmem => ih v hmem (hv.of_tuple v hmem)
  case dict =>
    intro keys values _ hv
    refine .of_pure (a := keys.map .stray) ?_ fun m => by rw [renewModules] <;> simp
    rw [toModules, toModulesOf_atoms hv.of_dict]
  case other =>
    intro v hlist htuple hdict hv
    refine .of_nothing ?_ fun m => by rw [renewModules] <;> assumption
    intro marks ms marks' hrun
    have hread : v.toModules = do return (← v.items).map .stray := by
      rw [toModules]
      all_goals assumption
    simp only [hread, run_bind_eq_ok, run_lift_eq_ok, run_pure_eq_ok] at hrun ⊢
    obtain ⟨items, _, ⟨hitems, rfl⟩, rfl, rfl⟩ := hrun
    exact ⟨rfl, fun later => ⟨items, later, ⟨hitems, rfl⟩, rfl, rfl⟩⟩
  case nil =>
    intro v hv
    cases hv
  case cons =>
    intro v rest ihfirst ihrest
    exact forall_mem_cons.mpr ⟨ihfirst, ihrest⟩

theorem toTypeDef_readsBack : ReadsBack first mid now Grown toTypeDef (renewType first) v := by
  intro marks type marks' hrun
  obtain ⟨fields, rfl⟩ := eq_of_toTypeDef_eq_ok hrun
  have hparts := hrun
  unfold toTypeDef at hparts
  split at hparts
  · rename_i typeName dateCode parameters locals submodules definition code mappings groupConn
      groupGlobal originFile originLib heq
    cases heq
    have hfields := hv.of_element (by simp)
    simp only [mem_cons, forall_eq_or_imp] at hfields
    obtain ⟨-, -, hparameters, hlocals, hsubmodules, -⟩ := hfields
    simp only [run_bind_eq_ok, run_lift_eq_ok, run_pure_eq_ok] at hparts
    obtain ⟨name, _, ⟨hname, -⟩, _, _, -, _, _, -, _, _, -, ms, _, ⟨hms, -⟩, -⟩ := hparts
    refine ReadsBack.three (fun x₁ x₂ x₃ => .element .typeDef [typeName, dateCode, x₁, x₂, x₃,
      definition, code, mappings, groupConn, groupGlobal, originFile, originLib])
      (fun x₁ x₂ x₃ => by simp only [toTypeDef, hname, hms, lift_ok, pure_bind]; rfl) (fun m => ?_)
      (grown_three (by simp) [_, _] _) (fun h₁ h₂ h₃ => ?_)
      (toVariables_readsBack hmid hnow hparameters) (toVariables_readsBack hmid hnow hlocals)
      (toModules_readsBack hmid hnow hsubmodules) hrun
    · rfl
    · simp only [absentAmong_cons, h₁.isAbsent_eq, h₂.isAbsent_eq, h₃.isAbsent_eq]
  · cases hparts

theorem toPicture_readsBack : ReadsBack first mid now Grown toPicture (renewPicture first) v := by
  intro marks p marks' hrun
  have hparts := hrun
  unfold toPicture at hparts
  split at hparts
  · rename_i header pictureName position records types locals submodules definition code
      originFile originLib syntaxTree
    have hfields := hv.of_element (by simp)
    simp only [mem_cons, forall_eq_or_imp] at hfields
    obtain ⟨-, -, -, -, htypes, hlocals, hsubmodules, -⟩ := hfields
    simp only [run_bind_eq_ok, run_lift_eq_ok] at hparts
    obtain ⟨rs, _, ⟨hrs, -⟩, -⟩ := hparts
    refine ReadsBack.three (fun x₁ x₂ x₃ => .element .basePicture [header, pictureName,
      position, records, x₁, x₂, x₃, definition, code, originFile, originLib, syntaxTree])
      (fun x₁ x₂ x₃ => by
        simp only [toPicture, hrs, lift_ok, pure_bind, bind_assoc]; rfl) (fun m => ?_)
      (grown_three (by simp) [_, _, _, _] _)
      (fun h₁ h₂ h₃ => ?_)
      (ReadsBack.eachItem htypes (fun x hatom marks found hx => ?_)
        fun x => toTypeDef_readsBack hmid hnow)
      (toVariables_readsBack hmid hnow hlocals) (toModules_readsBack hmid hnow hsubmodules) hrun
    · rfl
    · simp only [absentAmong_cons, h₁.isAbsent_eq, h₂.isAbsent_eq, h₃.isAbsent_eq]
    · obtain ⟨fields, rfl⟩ := eq_of_toTypeDef_eq_ok hx
      cases hatom
  · cases hparts

end Readers

/-- The renewed picture has the uses found since it was read, behind those found some time before,
and reads as the same program. -/
theorem renewed_reads {p : Picture} (hread : v.toPicture.run {} = .ok (p, first))
    (hmid : first.Continues mid) (hnow : mid.Continues now) (hv : AllUses P v) :
    Grown v (v.renewed first now) ∧ Grown (v.renewed first mid) (v.renewed first now) ∧
      (v.renewed first now).toPicture.run {} = .ok (p, now) := by
  obtain ⟨-, hback⟩ := toPicture_readsBack hmid hnow hv hread
  obtain ⟨before, w, later, hbefore, hafter, hgrown, hsince, hagain, hlater, hnext⟩ :=
    hback {} (.refl first) nil_prefix rfl
  have hx : v.renewed first mid = before := congrArg Prod.fst hbefore
  have hw : v.renewed first now = w := congrArg Prod.fst hafter
  rw [hx, hw]
  refine ⟨hgrown, hsince, ?_⟩
  rw [hagain, hlater.eq (hnext.trans (hmid.trans hnow).next_eq.symm)]

end Value

end SattLine
