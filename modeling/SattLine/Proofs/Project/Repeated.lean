import Mathlib.Data.List.Induction
import SattLine.Proofs.Project.Accounting

/-!
Loading with a loader that has loaded before. The names that a call has met, finished or left open
by a fault, stay with the loader, and later calls do not go into them again. Main statement: what
earlier calls leave are names that their roots lead to. A call that leads to none of them gives what
it would give on a new loader. Where a new loader returns a graph, the used one returns that graph
exactly if none of its names was met before, and a root that was met gives an empty graph.
-/

namespace SattLine.Project

open Text (lower)
open List

namespace Loading

variable {α β : Type} {s : Progress}

theorem run_bind (x : Loading α) (next : α → Loading β) (s : Progress) :
    (x >>= next).run.run s =
      match x.run.run s with
      | (.ok a, t) => (next a).run.run t
      | (.error cause, t) => (.error cause, t) := by
  rw [ExceptT.run_bind, StateT.run_bind]
  rcases x.run.run s with ⟨cause | a, t⟩ <;> rfl

theorem run_start_of_knows {key : String} (h : s.history.Knows key) :
    (start key).run.run s = (.ok false, s) :=
  (start_ends_of_knows h).mpr ⟨rfl, rfl⟩

theorem run_start_of_fresh {key : String} (h : ¬ s.history.Knows key) :
    (start key).run.run s = (.ok true, { s with history := s.history.opened key }) :=
  (start_ends_of_fresh h).mpr ⟨rfl, rfl⟩

end Loading

namespace History

theorem knows_opened {h : History} {key other : String} :
    (h.opened key).Knows other ↔ other = key ∨ h.Knows other := by
  simp only [Knows, opened, mem_cons]
  tauto

theorem knows_closed {h : History} {key other : String} :
    (h.closed key).Knows other ↔ other = key ∨ h.Knows other := by
  by_cases heq : other = key
  · simp [Knows, closed, heq]
  · simp [Knows, closed, heq, mem_erase_of_ne heq]

end History

section Blind

variable {α β : Type} {keys : String → Prop}

/-- Two states that differ at most in what they know outside of `keys`. -/
structure Progress.Alike (keys : String → Prop) (s t : Progress) : Prop where
  graph : s.graph = t.graph
  marks : s.marks = t.marks
  knows : ∀ key, keys key → (s.history.Knows key ↔ t.history.Knows key)

/-- A step does not see what is known outside of `keys`. -/
def Loading.Blind (keys : String → Prop) (x : Loading α) : Prop :=
  ∀ ⦃s t : Progress⦄, s.Alike keys t →
    (x.run.run s).1 = (x.run.run t).1 ∧ (x.run.run s).2.Alike keys (x.run.run t).2

namespace Loading.Blind

theorem pure (a : α) : (pure a : Loading α).Blind keys :=
  fun _ _ h => ⟨rfl, h⟩

theorem throw (cause : LoadError) : (throw cause : Loading α).Blind keys :=
  fun _ _ h => ⟨rfl, h⟩

theorem bind {x : Loading α} {next : α → Loading β} (hx : x.Blind keys)
    (hnext : ∀ a, (next a).Blind keys) : (x >>= next).Blind keys := by
  intro s t h
  obtain ⟨hresult, hstates⟩ := hx h
  rw [run_bind, run_bind]
  rcases hs : x.run.run s with ⟨cause | a, s'⟩ <;> rcases ht : x.run.run t with ⟨cause' | b, t'⟩ <;>
    rw [hs, ht] at hresult hstates <;> cases hresult
  · exact ⟨rfl, hstates⟩
  · exact hnext a hstates

theorem ends {x : Loading α} (hx : x.Blind keys) {s t s' : Progress} {a : α}
    (h : s.Alike keys t) (hends : x.Ends s a s') : ∃ t', x.Ends t a t' ∧ s'.Alike keys t' := by
  obtain ⟨hresult, hstates⟩ := hx h
  rw [Ends] at hends
  rw [hends] at hresult hstates
  exact ⟨(x.run.run t).2, Prod.ext hresult.symm rfl, hstates⟩

theorem ofRead (given : Except ReadError α) : (Loading.ofRead given).Blind keys := by
  cases given with
  | error cause => exact throw _
  | ok a => exact pure a

theorem change (f : Graph → Graph) : (Loading.change f).Blind keys :=
  fun _ _ h => ⟨rfl, congrArg f h.graph, h.marks, h.knows⟩

theorem start {key : String} (hkey : keys key) : (Loading.start key).Blind keys := by
  intro s t h
  by_cases hknown : s.history.Knows key
  · rw [run_start_of_knows hknown, run_start_of_knows ((h.knows key hkey).mp hknown)]
    exact ⟨rfl, h⟩
  · rw [run_start_of_fresh hknown, run_start_of_fresh fun ht => hknown ((h.knows key hkey).mpr ht)]
    refine ⟨rfl, h.graph, h.marks, fun other hother => ?_⟩
    simp only [History.knows_opened, h.knows other hother]

theorem finish (key : String) : (Loading.finish key).Blind keys := by
  intro s t h
  refine ⟨rfl, h.graph, h.marks, fun other hother => ?_⟩
  have hs : ((Loading.finish key).run.run s).2.history = s.history.closed key := rfl
  have ht : ((Loading.finish key).run.run t).2.history = t.history.closed key := rfl
  rw [hs, ht, History.knows_closed, History.knows_closed, h.knows other hother]

theorem forM {f : α → Loading Unit} {items : List α} (h : ∀ a ∈ items, (f a).Blind keys) :
    (items.forM f).Blind keys := by
  induction items with
  | nil => exact pure ()
  | cons a rest ih =>
    exact bind (h a mem_cons_self) fun _ => ih fun b hb => h b (mem_cons_of_mem _ hb)

end Loading.Blind

namespace Loader

variable {loader : Loader} {store : Store} {strict : Bool} {root : String}

theorem giveUp_false (name : String) (cause : LoadError) :
    giveUp false name cause = Loading.change fun graph =>
      { graph with missing := graph.missing ++ [⟨name, cause⟩] } :=
  rfl

theorem giveUp_blind (name : String) (cause : LoadError) :
    (giveUp strict name cause).Blind keys := by
  cases strict with
  | true => exact .bind (.throw cause) fun _ => .change _
  | false =>
    rw [giveUp_false]
    exact .change _

theorem loadFile_blind (name : String) (file : Location) :
    (loader.loadFile store strict name file).Blind keys := by
  intro s t h
  have hget : ∀ r, (get : Loading Progress).run.run r = (.ok r, r) := fun _ => rfl
  cases hread : loader.readProgram store file t.marks with
  | error cause =>
    have hrun : ∀ r : Progress, r.marks = t.marks →
        (loader.loadFile store strict name file).run.run r =
          (giveUp strict name cause).run.run r := by
      intro r hr
      simp only [loadFile, Loading.run_bind, hget, hr, hread]
    rw [hrun s h.marks, hrun t rfl]
    exact giveUp_blind name cause h
  | ok result =>
    have hrun : ∀ r : Progress, r.marks = t.marks →
        (loader.loadFile store strict name file).run.run r = (.ok (), { r with
          marks := result.2
          graph := r.graph.enter name (Picture.setOrigin (loader.origin store file) result.1) }) := by
      intro r hr
      simp only [loadFile, Loading.run_bind, hget, hr, hread]
      rfl
    rw [hrun s h.marks, hrun t rfl]
    exact ⟨rfl, congrArg (Graph.enter · name _) h.graph, rfl, h.knows⟩

theorem loadCode_blind (name : String) : (loader.loadCode store strict name).Blind keys := by
  refine .bind (.ofRead _) fun code => ?_
  cases code with
  | some file => exact loadFile_blind name file
  | none =>
    refine .bind (.ofRead _) fun vendorCode => .bind (.ofRead _) fun vendorList => ?_
    cases vendorCode.or vendorList with
    | some file => exact .change _
    | none => exact giveUp_blind name _

theorem loadRoot_blind (name : String) : (loader.loadRoot store strict name).Blind keys := by
  refine .bind (.ofRead _) fun code => ?_
  cases code with
  | some file => exact loadFile_blind name file
  | none => exact giveUp_blind name _

/-- The names in the list of a name; none if there is no list. -/
def listing (loader : Loader) (store : Store) (name : String) : Except ReadError (List String) :=
  match loader.list? store name with
  | .error cause => .error cause
  | .ok none => .ok []
  | .ok (some file) => dependencies store file

variable {name : String} {names : List String} {depth : Nat} {s : Progress}

theorem listed_of_listing (h : loader.listing store name = .ok names) :
    loader.listed store name = names := by
  unfold listing at h
  unfold listed
  split at h
  · cases h
  · next hfound =>
    cases h
    rw [hfound]
  · next file hfound =>
    simp only [hfound, h]
    rfl

/-- What is done with a name that is opened: what it lists is visited, and its code is loaded. -/
def goInto (loader : Loader) (store : Store) (strict : Bool) (depth : Nat) (name : String) :
    Loading Unit := do
  (← Loading.ofRead (loader.listing store name)).forM (loader.visit store strict depth)
  loader.loadCode store strict name
  Loading.finish (lower name)

theorem visit_succ (depth : Nat) (name : String) :
    loader.visit store strict (depth + 1) name =
      (do if ← Loading.start (lower name) then loader.goInto store strict depth name) := by
  rw [visit]
  unfold goInto listing
  cases loader.list? store name with
  | error cause => rfl
  | ok found => cases found <;> rfl

theorem run_visit_of_knows (h : s.history.Knows (lower name)) :
    (loader.visit store strict depth name).run.run s = (.ok (), s) :=
  (visit_ends_of_knows h).mpr rfl

theorem run_visit_of_fresh (h : ¬ s.history.Knows (lower name)) :
    (loader.visit store strict (depth + 1) name).run.run s =
      (loader.goInto store strict depth name).run.run
        { s with history := s.history.opened (lower name) } := by
  rw [visit_succ, Loading.run_bind, Loading.run_start_of_fresh h]
  rfl

theorem goInto_of_error {cause : ReadError} (h : loader.listing store name = .error cause) :
    loader.goInto store strict depth name = throw (.unreadable cause) := by
  rw [goInto, h]
  rfl

theorem goInto_of_ok (h : loader.listing store name = .ok names) :
    loader.goInto store strict depth name = (do
      names.forM (loader.visit store strict depth)
      loader.loadCode store strict name
      Loading.finish (lower name)) := by
  rw [goInto, h, Loading.ofRead_ok, pure_bind]

/-- One name leads to another along the lists of dependencies. -/
def LeadsTo (loader : Loader) (store : Store) : String → String → Prop :=
  Relation.ReflTransGen fun outer inner => inner ∈ loader.listed store outer

/-- Visiting a name asks only for names that it leads to. -/
theorem visit_blind (hname : ∀ other, loader.LeadsTo store name other → keys (lower other)) :
    (loader.visit store strict depth name).Blind keys := by
  induction depth generalizing name with
  | zero => exact .pure ()
  | succ depth ih =>
    rw [visit_succ]
    refine .bind (.start (hname name .refl)) fun started => ?_
    cases started with
    | false => exact .pure ()
    | true =>
      simp only [↓reduceIte]
      cases hlisting : loader.listing store name with
      | error cause =>
        rw [goInto_of_error hlisting]
        exact .throw _
      | ok names =>
        rw [goInto_of_ok hlisting]
        refine .bind (.forM fun other hother => ih fun last hlast => ?_) fun _ =>
          .bind (loadCode_blind name) fun _ => .finish _
        rw [← listed_of_listing hlisting] at hother
        exact hname last (.head hother hlast)

end Loader

end Blind

section Meets

variable {α β : Type} {base : History} {keys : String → Prop}

/-- What becomes known from one state to a later one is among `keys`, nothing is forgotten, and
entries are added only under names that `base` does not know. -/
structure Progress.Follows (base : History) (keys : String → Prop) (s t : Progress) : Prop where
  knows : ∀ key, s.history.Knows key → t.history.Knows key
  met : ∀ key, t.history.Knows key → s.history.Knows key ∨ keys key
  names : ∀ name ∈ t.graph.names, name ∈ s.graph.names ∨ ¬ base.Knows (lower name)

namespace Progress.Follows

variable {s t r : Progress}

theorem refl (s : Progress) : s.Follows base keys s :=
  ⟨fun _ h => h, fun _ h => .inl h, fun _ h => .inl h⟩

theorem trans (hst : s.Follows base keys t) (htr : t.Follows base keys r) :
    s.Follows base keys r where
  knows := fun key h => htr.knows key (hst.knows key h)
  met := fun key h => (htr.met key h).elim (hst.met key) .inr
  names := fun name h => (htr.names name h).elim (hst.names name) .inr

end Progress.Follows

/-- From every state that knows what `base` knows, a step leads to a state that follows it. -/
def Loading.Meets (base : History) (keys : String → Prop) (x : Loading α) : Prop :=
  ∀ s : Progress, (∀ key, base.Knows key → s.history.Knows key) →
    s.Follows base keys (x.run.run s).2

namespace Loading.Meets

theorem pure (a : α) : (pure a : Loading α).Meets base keys :=
  fun s _ => .refl s

theorem throw (cause : LoadError) : (throw cause : Loading α).Meets base keys :=
  fun s _ => .refl s

theorem bind {x : Loading α} {next : α → Loading β} (hx : x.Meets base keys)
    (hnext : ∀ a, (next a).Meets base keys) : (x >>= next).Meets base keys := by
  intro s hbase
  have hfirst := hx s hbase
  rw [run_bind]
  rcases hrun : x.run.run s with ⟨cause | a, t⟩ <;> rw [hrun] at hfirst
  · exact hfirst
  · exact hfirst.trans (hnext a t fun key hkey => hfirst.knows key (hbase key hkey))

theorem ofRead (given : Except ReadError α) : (Loading.ofRead given).Meets base keys := by
  cases given with
  | error cause => exact throw _
  | ok a => exact pure a

theorem forM {f : α → Loading Unit} {items : List α} (h : ∀ a ∈ items, (f a).Meets base keys) :
    (items.forM f).Meets base keys := by
  induction items with
  | nil => exact pure ()
  | cons a rest ih =>
    exact bind (h a mem_cons_self) fun _ => ih fun b hb => h b (mem_cons_of_mem _ hb)

theorem finish {key : String} (hkey : keys key) : (Loading.finish key).Meets base keys := by
  intro s _
  have hhistory : ((Loading.finish key).run.run s).2.history = s.history.closed key := rfl
  refine ⟨fun other h => ?_, fun other h => ?_, fun _ h => .inl h⟩
  · rw [hhistory, History.knows_closed]
    exact .inr h
  · rw [hhistory, History.knows_closed] at h
    exact h.elim (fun heq => .inr (heq ▸ hkey)) .inl

/-- A step that keeps the history and adds entries under a name that `base` does not know. -/
theorem of_names {x : Loading α} {name : String} (hname : ¬ base.Knows (lower name))
    (hhistory : ∀ s, (x.run.run s).2.history = s.history)
    (hnames : ∀ s, ∀ other ∈ (x.run.run s).2.graph.names, other ∈ s.graph.names ∨ other = name) :
    x.Meets base keys := by
  intro s _
  refine ⟨fun key h => (hhistory s).symm ▸ h, fun key h => .inl (hhistory s ▸ h), ?_⟩
  intro other hother
  rcases hnames s other hother with hold | rfl
  · exact .inl hold
  · exact .inr hname

end Loading.Meets

theorem mem_putNamed {nameOf : α → String} {item : α} {items : List α} {other : α}
    (h : other ∈ putNamed nameOf item items) : other ∈ items ∨ other = item := by
  induction items with
  | nil => exact .inr (mem_singleton.mp h)
  | cons first rest ih =>
    rw [putNamed] at h
    split at h
    · exact (mem_cons.mp h).elim .inr fun h => .inl (mem_cons_of_mem _ h)
    · rcases mem_cons.mp h with rfl | h
      · exact .inl mem_cons_self
      · exact (ih h).imp (mem_cons_of_mem _) id

namespace Graph

theorem names_enter {graph : Graph} {name : String} {p : Picture} {other : String}
    (h : other ∈ (graph.enter name p).names) : other ∈ graph.names ∨ other = name := by
  simp only [names, enter, mem_append, mem_map] at h ⊢
  rcases h with ⟨entry, hentry, rfl⟩ | h
  · rcases mem_putNamed hentry with hentry | rfl
    · exact .inl (.inl ⟨entry, hentry, rfl⟩)
    · exact .inr rfl
  · exact .inl (.inr h)

end Graph

namespace Loader

variable {loader : Loader} {store : Store} {strict : Bool} {root name : String}

section Named

variable (hname : ¬ base.Knows (lower name))

include hname

theorem giveUp_meets (cause : LoadError) : (giveUp strict name cause).Meets base keys := by
  cases strict with
  | true => exact fun s _ => .refl s
  | false =>
    refine .of_names hname (fun _ => rfl) fun s other hother => ?_
    have hgraph : ((giveUp false name cause).run.run s).2.graph =
        { s.graph with missing := s.graph.missing ++ [⟨name, cause⟩] } := rfl
    rw [hgraph] at hother
    simp only [Graph.names, map_append, map_cons, map_nil, mem_append,
      mem_singleton] at hother ⊢
    tauto

theorem loadFile_meets (file : Location) :
    (loader.loadFile store strict name file).Meets base keys := by
  refine .bind (fun s _ => .refl s) fun now => ?_
  cases loader.readProgram store file now.marks with
  | error cause => exact giveUp_meets hname cause
  | ok result => exact .of_names hname (fun _ => rfl) fun s other hother => Graph.names_enter hother

theorem loadCode_meets : (loader.loadCode store strict name).Meets base keys := by
  refine .bind (.ofRead _) fun code => ?_
  cases code with
  | some file => exact loadFile_meets hname file
  | none =>
    refine .bind (.ofRead _) fun vendorCode => .bind (.ofRead _) fun vendorList => ?_
    cases vendorCode.or vendorList with
    | some file =>
      refine .of_names hname (fun _ => rfl) fun s other hother => ?_
      have hgraph : ((Loading.change fun graph => { graph with
          ignored := graph.ignored ++ [⟨name, file⟩] }).run.run s).2.graph =
            { s.graph with ignored := s.graph.ignored ++ [⟨name, file⟩] } := rfl
      rw [hgraph] at hother
      simp only [Graph.names, map_append, map_cons, map_nil, mem_append,
        mem_singleton] at hother ⊢
      tauto
    | none => exact giveUp_meets hname _

theorem loadRoot_meets : (loader.loadRoot store strict name).Meets base keys := by
  refine .bind (.ofRead _) fun code => ?_
  cases code with
  | some file => exact loadFile_meets hname file
  | none => exact giveUp_meets hname _

end Named

theorem goInto_meets {depth : Nat} (hkey : keys (lower name))
    (hbelow : ∀ other ∈ loader.listed store name,
      (loader.visit store strict depth other).Meets base keys)
    (hfresh : ¬ base.Knows (lower name)) :
    (loader.goInto store strict depth name).Meets base keys := by
  cases hlisting : loader.listing store name with
  | error cause =>
    rw [goInto_of_error hlisting]
    exact .throw _
  | ok names =>
    rw [goInto_of_ok hlisting]
    rw [listed_of_listing hlisting] at hbelow
    exact .bind (.forM hbelow) fun _ => .bind (loadCode_meets hfresh) fun _ => .finish hkey

theorem follows_opened {s : Progress} {key : String} (hkey : keys key) :
    s.Follows base keys { s with history := s.history.opened key } where
  knows := fun _ h => History.knows_opened.mpr (.inr h)
  met := fun _ h => (History.knows_opened.mp h).elim (fun heq => .inr (heq ▸ hkey)) .inl
  names := fun _ h => .inl h

/-- Visiting a name meets only names that it leads to. -/
theorem visit_meets {depth : Nat}
    (hname : ∀ other, loader.LeadsTo store name other → keys (lower other)) :
    (loader.visit store strict depth name).Meets base keys := by
  induction depth generalizing name with
  | zero => exact .pure ()
  | succ depth ih =>
    intro s hbase
    have hkey := hname name .refl
    by_cases hknown : s.history.Knows (lower name)
    · rw [run_visit_of_knows hknown]
      exact .refl s
    · have hopened : s.Follows base keys _ := follows_opened hkey
      rw [run_visit_of_fresh hknown]
      refine hopened.trans (goInto_meets hkey (fun other hother => ?_)
        (fun h => hknown (hbase _ h)) _ fun key h => hopened.knows key (hbase key h))
      exact ih fun last hlast => hname last (.head hother hlast)

theorem visit_knows (depth : Nat) (name : String) (s : Progress) :
    ((loader.visit store strict (depth + 1) name).run.run s).2.history.Knows (lower name) := by
  by_cases hknown : s.history.Knows (lower name)
  · rwa [run_visit_of_knows hknown]
  · rw [run_visit_of_fresh hknown]
    have hmeets : (loader.goInto store strict depth name).Meets {} fun _ => True :=
      goInto_meets trivial (fun _ _ => visit_meets fun _ _ => trivial) (by simp [History.Knows])
    exact (hmeets _ (by simp [History.Knows])).knows _ (History.knows_opened.mpr (.inl rfl))

end Loader

end Meets

namespace Loader

variable {loader : Loader} {store : Store} {strict : Bool} {root : String}

/-- The history that a row of calls leaves, each with its root and whether faults stop it. -/
def historyAfter (loader : Loader) (store : Store) (calls : List (String × Bool)) : History :=
  calls.foldl (fun history call => (loader.resolve store history call.1 call.2).2) {}

/-- The steps of a call. -/
def loading (loader : Loader) (store : Store) (strict : Bool) (root : String) : Loading Unit :=
  if loader.rootOnly then loader.loadRoot store strict root
  else loader.visit store strict (chainLimit store) root

theorem resolve_eq (history : History) :
    loader.resolve store history root strict =
      match (loader.loading store strict root).run.run { history := history } with
      | (.ok (), s) => (.ok (s.graph, s.marks), s.history)
      | (.error cause, s) => (.error cause, s.history) := by
  rw [resolve, loading]
  rcases (if loader.rootOnly then loader.loadRoot store strict root
    else loader.visit store strict (chainLimit store) root).run.run { history := history } with
    ⟨cause | _, s⟩ <;> rfl

theorem resolve_history (history : History) :
    (loader.resolve store history root strict).2 =
      ((loader.loading store strict root).run.run { history := history }).2.history := by
  rw [resolve_eq]
  rcases (loader.loading store strict root).run.run { history := history } with ⟨cause | _, s⟩ <;>
    rfl

variable {keys : String → Prop} {history : History} {key : String} {calls : List (String × Bool)}
  {graph : Graph} {marks : Marks}

theorem resolve_of_blind (hblind : (loader.loading store strict root).Blind keys) {h h' : History}
    (hknows : ∀ key, keys key → (h.Knows key ↔ h'.Knows key)) :
    (loader.resolve store h root strict).1 = (loader.resolve store h' root strict).1 := by
  obtain ⟨hresult, hstates⟩ :=
    hblind (s := { history := h }) (t := { history := h' }) ⟨rfl, rfl, hknows⟩
  rw [resolve_eq, resolve_eq]
  generalize loader.loading store strict root = x at hresult hstates
  rcases hs : x.run.run { history := h } with ⟨cause | _, s⟩ <;>
    rcases ht : x.run.run { history := h' } with ⟨cause' | _, t⟩ <;>
    rw [hs, ht] at hresult hstates <;> cases hresult
  · rfl
  · exact congrArg Except.ok (Prod.ext hstates.graph hstates.marks)

theorem loading_blind (hroot : loader.rootOnly = false →
    ∀ name, loader.LeadsTo store root name → keys (lower name)) :
    (loader.loading store strict root).Blind keys := by
  rw [loading]
  cases hall : loader.rootOnly with
  | true => exact loadRoot_blind root
  | false => exact visit_blind (hroot hall)

theorem loading_meets {base : History}
    (hroot : ¬ base.Knows (lower root) ∨ loader.rootOnly = false)
    (hkeys : loader.rootOnly = false →
      ∀ name, loader.LeadsTo store root name → keys (lower name)) :
    (loader.loading store strict root).Meets base keys := by
  rw [loading]
  cases hall : loader.rootOnly with
  | true => exact loadRoot_meets (hroot.resolve_right (by simp [hall]))
  | false => exact visit_meets (hkeys hall)

/-- What a call leaves known was known before or is a name that its root leads to. -/
theorem resolve_met (h : (loader.resolve store history root strict).2.Knows key) :
    history.Knows key ∨
      loader.rootOnly = false ∧ ∃ name, loader.LeadsTo store root name ∧ lower name = key := by
  rw [resolve_history] at h
  have hmeets : (loader.loading store strict root).Meets {} fun key => loader.rootOnly = false ∧
      ∃ name, loader.LeadsTo store root name ∧ lower name = key :=
    loading_meets (.inl (by simp [History.Knows])) fun hall name hname => ⟨hall, name, hname, rfl⟩
  exact (hmeets { history := history } (by simp [History.Knows])).met key h

theorem resolve_keeps_known (h : history.Knows key) :
    (loader.resolve store history root strict).2.Knows key := by
  rw [resolve_history]
  have hmeets : (loader.loading store strict root).Meets {} fun _ => True :=
    loading_meets (.inl (by simp [History.Knows])) fun _ _ _ => trivial
  exact (hmeets { history := history } (by simp [History.Knows])).knows key h

theorem historyAfter_append (calls : List (String × Bool)) (call : String × Bool) :
    loader.historyAfter store (calls ++ [call]) =
      (loader.resolve store (loader.historyAfter store calls) call.1 call.2).2 := by
  rw [historyAfter, foldl_append]
  rfl

/-- What calls leave known are names that their roots lead to. -/
theorem historyAfter_met (h : (loader.historyAfter store calls).Knows key) :
    ∃ call ∈ calls, ∃ name, loader.LeadsTo store call.1 name ∧ lower name = key := by
  induction calls using List.reverseRecOn with
  | nil => simp [historyAfter, History.Knows] at h
  | append_singleton calls call ih =>
    rw [historyAfter_append] at h
    rcases resolve_met h with hold | ⟨-, name, hname, hkey⟩
    · obtain ⟨earlier, hearlier, hmet⟩ := ih hold
      exact ⟨earlier, mem_append_left _ hearlier, hmet⟩
    · exact ⟨call, by simp, name, hname, hkey⟩

theorem historyAfter_knows_root (hall : loader.rootOnly = false) {call : String × Bool}
    (h : call ∈ calls) : (loader.historyAfter store calls).Knows (lower call.1) := by
  induction calls using List.reverseRecOn with
  | nil => simp at h
  | append_singleton calls last ih =>
    rw [historyAfter_append]
    rcases mem_append.mp h with h | h
    · exact resolve_keeps_known (ih h)
    · obtain rfl := mem_singleton.mp h
      rw [resolve_history, loading, hall, if_neg (by simp)]
      exact visit_knows _ _ _

theorem resolve_of_known_root (hall : loader.rootOnly = false)
    (hroot : history.Knows (lower root)) :
    loader.resolve store history root strict = (.ok ({}, {}), history) := by
  rw [resolve_eq, loading, hall, if_neg (by simp), run_visit_of_knows hroot]

/-- A graph has no names that were known before it was loaded. -/
theorem resolve_names_fresh (hall : loader.rootOnly = false)
    (h : (loader.resolve store history root strict).1 = .ok (graph, marks)) :
    ∀ name ∈ graph.names, ¬ history.Knows (lower name) := by
  intro name hname
  have hmeets : (loader.loading store strict root).Meets history fun _ => True :=
    loading_meets (.inr hall) fun _ _ _ => trivial
  have hfollows := hmeets { history := history } fun _ h => h
  rw [resolve_eq] at h
  generalize loader.loading store strict root = x at h hfollows
  rcases hrun : x.run.run { history := history } with ⟨cause | _, s⟩ <;>
    rw [hrun] at h hfollows <;> cases h
  exact (hfollows.names name hname).resolve_left (by simp [Graph.names])

/-- Visits that return also return where more is known, if they finish nothing of it, and leave
the same. -/
theorem Visits.beside {names order : List String} {depth : Nat} {s s' t : Progress}
    {extra : String → Prop} (h : loader.Visits store strict depth names order s s')
    (hgraph : t.graph = s.graph) (hmarks : t.marks = s.marks)
    (hknows : ∀ key, t.history.Knows key ↔ s.history.Knows key ∨ extra key)
    (hextra : ∀ name ∈ order, ¬ extra (lower name)) :
    ∃ t', loader.Visits store strict depth names order t t' ∧ t'.graph = s'.graph ∧
      t'.marks = s'.marks ∧ ∀ key, t'.history.Knows key ↔ s'.history.Knows key ∨ extra key := by
  induction h generalizing t with
  | nil => exact ⟨t, .nil, hgraph, hmarks, hknows⟩
  | known hknown _ ih =>
    obtain ⟨t', hvisits, hleft⟩ := ih hgraph hmarks hknows hextra
    exact ⟨t', .known ((hknows _).mpr (.inl hknown)) hvisits, hleft⟩
  | @fresh _ name _ _ _ s q q' _ hfresh hlist _ hcode _ ihinner ihrest =>
    obtain ⟨hbefore, hnew, hafter⟩ :=
      (forall_mem_append.trans (and_congr_right' forall_mem_cons)).mp hextra
    obtain ⟨p, hvisits, hgraph', hmarks', hknows'⟩ := ihinner
      (t := { t with history := t.history.opened (lower name) }) hgraph hmarks
      (fun key => by rw [History.knows_opened, History.knows_opened, hknows, or_assoc]) hbefore
    have halike : q.Alike (fun _ => False) p := ⟨hgraph'.symm, hmarks'.symm, fun _ h => h.elim⟩
    obtain ⟨p', hcode', hgraph'', hmarks'', -⟩ := (loadCode_blind name).ends halike hcode
    obtain ⟨t', hothers, hleft⟩ := ihrest
      (t := { p' with history := p'.history.closed (lower name) }) hgraph''.symm hmarks''.symm
      (fun key => by
        rw [(loadCode_ends hcode').1, (loadCode_ends hcode).1, History.knows_closed,
          History.knows_closed, hknows', or_assoc]) hafter
    refine ⟨t', .fresh ?_ hlist hvisits hcode' hothers, hleft⟩
    rw [hknows]
    exact not_or.mpr ⟨hfresh, hnew⟩

/-- What a new loader returns is also returned by one that knows none of its names. -/
theorem resolve_of_names_fresh (hall : loader.rootOnly = false)
    (hreturns : (loader.resolve store {} root strict).1 = .ok (graph, marks))
    (hfresh : ∀ name ∈ graph.names, ¬ history.Knows (lower name)) :
    (loader.resolve store history root strict).1 = .ok (graph, marks) := by
  obtain ⟨order, finished, ht⟩ := loader.exists_traverses_root store root
  have hends := resolve_eq_ok.mp (Prod.ext hreturns rfl)
  rw [hall, if_neg (by simp)] at hends
  have hvisits := (visits_root ht hends).1
  have hnames : graph.names.Perm order :=
    hvisits.loads.names_perm ht.nodup.of_map (by simp [Graph.names])
  obtain ⟨t, hvisits', hgraph, hmarks, -⟩ := hvisits.beside (t := { history := history }) rfl rfl
    (fun key => by simp [History.Knows]) fun name hname => hfresh name (hnames.mem_iff.mpr hname)
  have hends' := Loading.ends_forM_singleton.mp hvisits'.ends
  rw [Loading.Ends] at hends'
  rw [resolve_eq, loading, hall, if_neg (by simp), hends']
  exact congrArg Except.ok (Prod.ext hgraph hmarks)

/-- How a call depends on the calls before it, whether these returned or failed. The root alone is
loaded without regard to them. They leave names that their roots lead to; a call that leads to none
of these gives what a new loader gives. What a new loader returns is returned again exactly if
none of its names was met, and a root that was loaded before gives an empty graph. -/
theorem resolve_after_calls (loader : Loader) (store : Store) (calls : List (String × Bool))
    (root : String) (strict : Bool) :
    (loader.rootOnly = true →
      (loader.resolve store (loader.historyAfter store calls) root strict).1 =
        (loader.resolve store {} root strict).1) ∧
    (∀ key, (loader.historyAfter store calls).Knows key →
      ∃ call ∈ calls, ∃ name, loader.LeadsTo store call.1 name ∧ Text.lower name = key) ∧
    ((∀ name, loader.LeadsTo store root name →
        ¬ (loader.historyAfter store calls).Knows (Text.lower name)) →
      (loader.resolve store (loader.historyAfter store calls) root strict).1 =
        (loader.resolve store {} root strict).1) ∧
    (loader.rootOnly = false →
      (∀ graph marks, (loader.resolve store {} root strict).1 = .ok (graph, marks) →
        ((loader.resolve store (loader.historyAfter store calls) root strict).1 =
            .ok (graph, marks) ↔
          ∀ name ∈ graph.names, ¬ (loader.historyAfter store calls).Knows (Text.lower name))) ∧
      ∀ call ∈ calls, Text.lower call.1 = Text.lower root →
        loader.resolve store (loader.historyAfter store calls) root strict =
          (.ok ({}, {}), loader.historyAfter store calls)) := by
  refine ⟨fun hall => ?_, fun key hkey => historyAfter_met hkey, fun hfresh => ?_, fun hall =>
    ⟨fun graph marks hreturns => ⟨resolve_names_fresh hall, resolve_of_names_fresh hall hreturns⟩,
      fun call hcall hroot => ?_⟩⟩
  · have hblind : (loader.loading store strict root).Blind fun _ => False :=
      loading_blind fun hother => by simp [hall] at hother
    exact resolve_of_blind hblind fun _ h => h.elim
  · have hblind : (loader.loading store strict root).Blind
        fun key => ∃ name, loader.LeadsTo store root name ∧ Text.lower name = key :=
      loading_blind fun _ name hname => ⟨name, hname, rfl⟩
    refine resolve_of_blind hblind ?_
    rintro _ ⟨name, hname, rfl⟩
    exact iff_of_false (hfresh name hname) (by simp [History.Knows])
  · exact resolve_of_known_root hall (hroot ▸ historyAfter_knows_root hall hcall)

end Loader

/-- A call for another root changes nothing, and a call for the same root leaves nothing to load. -/
theorem circular_after_calls :
    (plainLoader.resolve circularStore (plainLoader.historyAfter circularStore [("Tank", false)]) "A"
        false).1 = (plainLoader.resolve circularStore {} "A" false).1 ∧
      plainLoader.resolve circularStore (plainLoader.historyAfter circularStore [("A", true)]) "a"
        false = (.ok ({}, {}), plainLoader.historyAfter circularStore [("A", true)]) := by
  obtain ⟨history, ht⟩ := circular_traverses
  obtain ⟨graph, marks, hresolved, hnames⟩ := Loader.exists_resolve_eq_ok rfl ht circular_checked
  have hfirst : (plainLoader.resolve circularStore {} "A" false).1 = .ok (graph, marks) := by
    rw [hresolved]
  have hfresh : ∀ name ∈ ["B", "Pump", "A"],
      ¬ (plainLoader.historyAfter circularStore [("Tank", false)]).Knows (Text.lower name) := by
    unfold History.Knows
    decide +kernel
  constructor
  · have hafter := (Loader.resolve_after_calls plainLoader circularStore [("Tank", false)] "A"
      false).2.2.2 rfl
    rw [hfirst, hafter.1 graph marks hfirst]
    exact fun name hname => hfresh name (hnames.mem_iff.mp hname)
  · have hafter := (Loader.resolve_after_calls plainLoader circularStore [("A", true)] "a"
      false).2.2.2 rfl
    exact hafter.2 ("A", true) mem_cons_self (by decide)

/-- A call that stops at a missing program leaves the names above it open, and the next call for
the same root finds nothing, where a new loader finds three names. -/
theorem circular_lost_after_failure :
    ((plainLoader.resolve circularStore {} "A" true).1.mapError LoadError.message).map
        (fun _ => ()) = .error "Missing code file for 'B' (official)" ∧
      (∃ graph marks, (plainLoader.resolve circularStore {} "A" false).1 = .ok (graph, marks) ∧
        graph.names.Perm ["B", "Pump", "A"]) ∧
      (plainLoader.resolve circularStore (plainLoader.historyAfter circularStore [("A", true)]) "A"
        false).1 = .ok ({}, {}) := by
  refine ⟨by decide +kernel, ?_, ?_⟩
  · obtain ⟨history, ht⟩ := circular_traverses
    obtain ⟨graph, marks, hresolved, hnames⟩ := Loader.exists_resolve_eq_ok rfl ht circular_checked
    exact ⟨graph, marks, by rw [hresolved], hnames⟩
  · rw [Loader.resolve_of_known_root rfl (Loader.historyAfter_knows_root rfl mem_cons_self)]

end SattLine.Project
