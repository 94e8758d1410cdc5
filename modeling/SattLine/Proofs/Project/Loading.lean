import SattLine.Proofs.Project.Listed
import SattLine.Proofs.Steps

/-!
The loader follows the traversal of the listed names: it loads the code of one name after the
other, in the order in which the traversal finishes them. The bound on the chains of dependencies
never cuts a chain off, and without faults of the file system the loader comes to an end.
-/

namespace SattLine.Project

open Text (lower)

namespace Loading

/-- The step `x` started in state `s` returns `a` and leaves state `s'`. -/
def Ends (x : Loading α) (s : Progress) (a : α) (s' : Progress) : Prop :=
  x.run.run s = (.ok a, s')

variable {α β : Type} {s s' : Progress}

variable {a : α} {f : α → Loading Unit}

@[simp] theorem ends_pure {b : α} : (pure a : Loading α).Ends s b s' ↔ b = a ∧ s' = s :=
  ended_iff

@[simp] theorem ends_bind {x : Loading α} {next : α → Loading β} {b : β} :
    (x >>= next).Ends s b s' ↔ ∃ a t, x.Ends s a t ∧ (next a).Ends t b s' :=
  bind_ended_iff

variable {u : Unit} {key : String} {b : Bool}

@[simp] theorem ends_modify {f : Progress → Progress} :
    (modify f : Loading Unit).Ends s u s' ↔ s' = f s :=
  ended_iff.trans (and_iff_right rfl)

@[simp] theorem ends_get {a : Progress} : (get : Loading Progress).Ends s a s' ↔ a = s ∧ s' = s :=
  ended_iff

@[simp] theorem ends_throw {cause : LoadError} : ¬ (throw cause : Loading α).Ends s a s' := by
  intro h
  cases h

theorem ofRead_ok (a : α) : ofRead (.ok a) = pure a :=
  rfl

@[simp] theorem ends_ofRead {given : Except ReadError α} :
    (ofRead given).Ends s a s' ↔ given = .ok a ∧ s' = s := by
  cases given with
  | error cause => simp [ofRead]
  | ok b =>
    simp only [ofRead, ends_pure, Except.ok.injEq]
    exact ⟨fun h => ⟨h.1.symm, h.2⟩, fun h => ⟨h.1.symm, h.2⟩⟩

theorem ends_forM_nil : (([] : List α).forM f).Ends s u s' ↔ s' = s := by
  simp [List.forM_eq_forM]

theorem ends_forM_cons {rest : List α} :
    ((a :: rest).forM f).Ends s u s' ↔ ∃ t, (f a).Ends s () t ∧ (rest.forM f).Ends t () s' := by
  simp only [List.forM_eq_forM, List.forM_cons, ends_bind]
  exact ⟨fun ⟨_, t, h⟩ => ⟨t, h⟩, fun ⟨t, h⟩ => ⟨(), t, h⟩⟩

theorem ends_forM_singleton : ([a].forM f).Ends s u s' ↔ (f a).Ends s () s' := by
  simp only [ends_forM_cons, ends_forM_nil]
  exact ⟨fun ⟨_, h, heq⟩ => heq ▸ h, fun h => ⟨s', h, rfl⟩⟩

theorem start_ends_of_knows (hknown : s.history.Knows key) :
    (start key).Ends s b s' ↔ b = false ∧ s' = s := by
  have hseen : (s.history.done.contains key || s.history.pending.contains key) = true := by
    simpa [History.Knows] using hknown
  simp only [start, ends_bind, ends_get]
  constructor
  · rintro ⟨_, _, ⟨rfl, rfl⟩, h⟩
    rwa [if_pos hseen, ends_pure] at h
  · rintro ⟨rfl, rfl⟩
    refine ⟨_, _, ⟨rfl, rfl⟩, ?_⟩
    rw [if_pos hseen, ends_pure]
    exact ⟨rfl, rfl⟩

theorem start_ends_of_fresh (hfresh : ¬ s.history.Knows key) :
    (start key).Ends s b s' ↔ b = true ∧ s' = { s with history := s.history.opened key } := by
  have hseen : ¬ (s.history.done.contains key || s.history.pending.contains key) = true := by
    simpa [History.Knows] using hfresh
  simp only [start, ends_bind, ends_get]
  constructor
  · rintro ⟨_, _, ⟨rfl, rfl⟩, h⟩
    rw [if_neg hseen] at h
    simp only [ends_bind, ends_pure, ends_modify] at h
    obtain ⟨_, _, rfl, rfl, rfl⟩ := h
    exact ⟨rfl, rfl⟩
  · rintro ⟨rfl, rfl⟩
    refine ⟨_, _, ⟨rfl, rfl⟩, ?_⟩
    rw [if_neg hseen]
    simp only [ends_bind, ends_pure, ends_modify]
    exact ⟨(), _, rfl, trivial, rfl⟩

theorem finish_ends : (finish key).Ends s u s' ↔ s' = { s with history := s.history.closed key } :=
  ends_modify

end Loading

namespace Loader

open Loading

variable {loader : Loader} {store : Store} {strict : Bool} {s s' : Progress} {u : Unit}

/-- What loading the code of a name makes of the graph and the marks: the program in a file is
entered, or the name is noted as missing or as left to the vendor. -/
inductive Loads (loader : Loader) (store : Store) (name : String) :
    Graph × Marks → Graph × Marks → Prop
  | program {graph marks file p marks'} (hread : loader.readProgram store file marks = .ok (p, marks')) :
      Loads loader store name (graph, marks)
        (graph.enter name (Picture.setOrigin (loader.origin store file) p), marks')
  | missing {graph marks} (cause : LoadError) :
      Loads loader store name (graph, marks)
        ({ graph with missing := graph.missing ++ [⟨name, cause⟩] }, marks)
  | ignored {graph marks} (file : Location) :
      Loads loader store name (graph, marks)
        ({ graph with ignored := graph.ignored ++ [⟨name, file⟩] }, marks)

/-- Loading the code of some names one after the other. -/
inductive LoadsAll (loader : Loader) (store : Store) :
    List String → Graph × Marks → Graph × Marks → Prop
  | nil {a} : LoadsAll loader store [] a a
  | cons {name names a b c} (h : loader.Loads store name a b)
      (hrest : LoadsAll loader store names b c) : LoadsAll loader store (name :: names) a c

theorem LoadsAll.append {first rest : List String} {a b c : Graph × Marks}
    (hfirst : loader.LoadsAll store first a b) (hrest : loader.LoadsAll store rest b c) :
    loader.LoadsAll store (first ++ rest) a c := by
  induction hfirst with
  | nil => exact hrest
  | cons h _ ih => exact .cons h (ih hrest)

variable {name : String} {depth : Nat}

theorem giveUp_ends {cause : LoadError} (h : (giveUp strict name cause).Ends s u s') :
    s'.history = s.history ∧
      loader.Loads store name (s.graph, s.marks) (s'.graph, s'.marks) := by
  cases strict with
  | true =>
    simp only [giveUp, ↓reduceIte, ends_bind] at h
    obtain ⟨_, _, h, -⟩ := h
    exact absurd h ends_throw
  | false =>
    simp only [giveUp, Bool.false_eq_true, ↓reduceIte, change, ends_modify] at h
    subst h
    exact ⟨rfl, .missing cause⟩

theorem loadFile_ends {file : Location} (h : (loader.loadFile store strict name file).Ends s u s') :
    s'.history = s.history ∧
      loader.Loads store name (s.graph, s.marks) (s'.graph, s'.marks) := by
  simp only [loadFile, ends_bind, ends_get] at h
  obtain ⟨_, _, ⟨rfl, rfl⟩, h⟩ := h
  split at h
  · exact giveUp_ends h
  · next p marks hread =>
    rw [ends_modify] at h
    subst h
    exact ⟨rfl, .program hread⟩

theorem loadCode_ends (h : (loader.loadCode store strict name).Ends s u s') :
    s'.history = s.history ∧
      loader.Loads store name (s.graph, s.marks) (s'.graph, s'.marks) := by
  simp only [loadCode, ends_bind, ends_ofRead] at h
  obtain ⟨code, _, ⟨-, rfl⟩, h⟩ := h
  cases code with
  | some file => exact loadFile_ends h
  | none =>
    simp only [ends_bind, ends_ofRead] at h
    obtain ⟨vendorCode, _, ⟨-, rfl⟩, vendorList, _, ⟨-, rfl⟩, h⟩ := h
    split at h
    · next file _ =>
      rw [change, ends_modify] at h
      subst h
      exact ⟨rfl, .ignored file⟩
    · exact giveUp_ends h

theorem loadRoot_ends (h : (loader.loadRoot store strict name).Ends s u s') :
    s'.history = s.history ∧
      loader.Loads store name (s.graph, s.marks) (s'.graph, s'.marks) := by
  simp only [loadRoot, ends_bind, ends_ofRead] at h
  obtain ⟨code, _, ⟨-, rfl⟩, h⟩ := h
  cases code with
  | some file => exact loadFile_ends h
  | none => exact giveUp_ends h

/-- The list of a name, if there is one, can be looked for and read. -/
def HasReadableList (loader : Loader) (store : Store) (name : String) : Prop :=
  ∃ found, loader.list? store name = .ok found ∧
    ∀ file, found = some file → ∃ names, dependencies store file = .ok names

/-- The code of a name can be looked for, and where there is none also the files of the vendor. -/
def HasSearchableCode (loader : Loader) (store : Store) (name : String) : Prop :=
  ∃ found, loader.code? store name = .ok found ∧
    (found = none → (∃ file, loader.vendorCode? store name = .ok file) ∧
      ∃ file, loader.vendorList? store name = .ok file)

instance (name : String) : Decidable (loader.HasReadableList store name) :=
  match hfound : loader.list? store name with
  | .error _ => .isFalse fun ⟨_, h, _⟩ => by simp [hfound] at h
  | .ok none => .isTrue ⟨none, hfound, fun _ h => by cases h⟩
  | .ok (some file) =>
    match hnames : dependencies store file with
    | .error _ => .isFalse fun ⟨_, h, hread⟩ => by
      obtain ⟨_, hread⟩ := hread file (by simpa [hfound] using h.symm)
      simp [hnames] at hread
    | .ok names => .isTrue ⟨some file, hfound, fun _ h => by cases h; exact ⟨names, hnames⟩⟩

instance (name : String) : Decidable (loader.HasSearchableCode store name) :=
  match hfound : loader.code? store name with
  | .error _ => .isFalse fun ⟨_, h, _⟩ => by simp [hfound] at h
  | .ok (some file) => .isTrue ⟨some file, hfound, fun h => by cases h⟩
  | .ok none =>
    match hcode : loader.vendorCode? store name, hlist : loader.vendorList? store name with
    | .ok code, .ok list => .isTrue ⟨none, hfound, fun _ => ⟨⟨code, hcode⟩, ⟨list, hlist⟩⟩⟩
    | .error _, _ => .isFalse fun ⟨_, h, hvendor⟩ => by
      obtain ⟨⟨_, h⟩, _⟩ := hvendor (by simpa [hfound] using h.symm)
      simp [hcode] at h
    | .ok _, .error _ => .isFalse fun ⟨_, h, hvendor⟩ => by
      obtain ⟨_, ⟨_, h⟩⟩ := hvendor (by simpa [hfound] using h.symm)
      simp [hlist] at h

theorem exists_giveUp_ends (name : String) (cause : LoadError) (s : Progress) :
    ∃ s', (giveUp false name cause).Ends s () s' := by
  simp [giveUp, change]

theorem exists_loadFile_ends (name : String) (file : Location) (s : Progress) :
    ∃ s', (loader.loadFile store false name file).Ends s () s' := by
  simp only [loadFile, ends_bind, ends_get]
  cases hread : loader.readProgram store file s.marks with
  | error cause =>
    obtain ⟨s', hs'⟩ := exists_giveUp_ends name cause s
    exact ⟨s', s, s, ⟨rfl, rfl⟩, by simpa only [hread] using hs'⟩
  | ok result => exact ⟨_, s, s, ⟨rfl, rfl⟩, by simp only [hread]; exact ends_modify.mpr rfl⟩

theorem HasSearchableCode.ends (h : loader.HasSearchableCode store name) (s : Progress) :
    ∃ s', (loader.loadCode store false name).Ends s () s' := by
  obtain ⟨found, hfound, hvendor⟩ := h
  simp only [loadCode, hfound, ofRead_ok, pure_bind]
  cases found with
  | some file => exact exists_loadFile_ends name file s
  | none =>
    obtain ⟨⟨code, hcode⟩, ⟨list, hlist⟩⟩ := hvendor rfl
    simp only [hcode, hlist, ofRead_ok, pure_bind]
    cases code.or list with
    | some file => exact ⟨_, ends_modify.mpr rfl⟩
    | none => exact exists_giveUp_ends name (.noCode name loader.mode) s

theorem visit_ends_of_knows (hknown : s.history.Knows (lower name)) :
    (loader.visit store strict depth name).Ends s u s' ↔ s' = s := by
  cases depth with
  | zero => simp [visit]
  | succ depth =>
    simp only [visit, ends_bind, start_ends_of_knows hknown]
    constructor
    · rintro ⟨_, _, ⟨rfl, rfl⟩, h⟩
      simpa using h
    · rintro rfl
      exact ⟨false, _, ⟨rfl, rfl⟩, by simp⟩

/-- A new name is opened, what it lists is visited, its code is loaded, and it is closed. -/
theorem visit_ends_of_fresh (hfresh : ¬ s.history.Knows (lower name)) :
    (loader.visit store strict (depth + 1) name).Ends s u s' ↔
      loader.HasReadableList store name ∧ ∃ t t',
        ((loader.listed store name).forM (loader.visit store strict depth)).Ends
          { s with history := s.history.opened (lower name) } () t ∧
        (loader.loadCode store strict name).Ends t () t' ∧
        s' = { t' with history := t'.history.closed (lower name) } := by
  simp only [visit]
  rw [ends_bind]
  simp only [start_ends_of_fresh hfresh, and_assoc, exists_and_left, exists_eq_left, ↓reduceIte]
  cases hfound : loader.list? store name with
  | error cause => simp [HasReadableList, hfound, ofRead]
  | ok found =>
    cases found with
    | none =>
      simp [HasReadableList, listed, hfound, ofRead_ok, finish_ends,
        Unique.exists_iff]
    | some file =>
      cases hnames : dependencies store file with
      | error cause => simp [HasReadableList, hfound, hnames, ofRead]
      | ok names =>
        simp [HasReadableList, listed, hfound, hnames, ofRead_ok,
          finish_ends, Except.toOption, Unique.exists_iff]

section Visits

/-- Visits that return, name by name: `Visits loader store strict depth names order s s'` meets the
names, finishes those in `order` and leads from `s` to `s'`. -/
inductive Visits (loader : Loader) (store : Store) (strict : Bool) :
    Nat → List String → List String → Progress → Progress → Prop
  | nil {limit a} : Visits loader store strict limit [] [] a a
  | known {limit first rest order a b} (hknown : a.history.Knows (lower first))
      (hrest : Visits loader store strict limit rest order a b) :
      Visits loader store strict limit (first :: rest) order a b
  | fresh {limit first rest inner order a b b' c} (hfresh : ¬ a.history.Knows (lower first))
      (hlist : loader.HasReadableList store first)
      (hinner : Visits loader store strict limit (loader.listed store first) inner
        { a with history := a.history.opened (lower first) } b)
      (hcode : (loader.loadCode store strict first).Ends b () b')
      (hrest : Visits loader store strict (limit + 1) rest order
        { b' with history := b'.history.closed (lower first) } c) :
      Visits loader store strict (limit + 1) (first :: rest) (inner ++ first :: order) a c

variable {h h' : History} {names order keys : List String} {depth : Nat}

theorem Visits.ends (h : loader.Visits store strict depth names order s s') :
    (names.forM (loader.visit store strict depth)).Ends s () s' := by
  induction h with
  | nil => exact ends_forM_nil.mpr rfl
  | known hknown _ ih =>
    exact ends_forM_cons.mpr ⟨_, (visit_ends_of_knows hknown).mpr rfl, ih⟩
  | fresh hfresh hlist _ hcode _ ihinner ihrest =>
    exact ends_forM_cons.mpr
      ⟨_, (visit_ends_of_fresh hfresh).mpr ⟨hlist, _, _, ihinner, hcode, rfl⟩, ihrest⟩

/-- The names that are finished are loaded, in their order. -/
theorem Visits.loads (h : loader.Visits store strict depth names order s s') :
    loader.LoadsAll store order (s.graph, s.marks) (s'.graph, s'.marks) := by
  induction h with
  | nil => exact .nil
  | known _ _ ih => exact ih
  | fresh _ _ _ hcode _ ihinner ihrest => exact ihinner.append (.cons (loadCode_ends hcode).2 ihrest)

/-- Visiting names finishes the names that the traversal finishes. -/
theorem visits_of_ends (ht : Traverses (loader.listed store) h names order h')
    (hbounded : Bounded (loader.listed store) keys h depth)
    (hkeys : ∀ name ∈ names, lower name ∈ keys) (hs : s.history = h)
    (hends : (names.forM (loader.visit store strict depth)).Ends s () s') :
    loader.Visits store strict depth names order s s' ∧ s'.history = h' := by
  induction ht generalizing depth s s' with
  | nil =>
    rw [ends_forM_nil] at hends
    subst hends
    exact ⟨.nil, hs⟩
  | known hknown _ ih =>
    subst hs
    obtain ⟨_, hfirst, hrest⟩ := ends_forM_cons.mp hends
    rw [visit_ends_of_knows hknown] at hfirst
    subst hfirst
    obtain ⟨hvisits, hleft⟩ :=
      ih hbounded (fun name hname => hkeys name (List.mem_cons_of_mem _ hname)) rfl hrest
    exact ⟨.known hknown hvisits, hleft⟩
  | @fresh h name rest inner t order h' hfresh hinner _ ihinner ihrest =>
    have hname := hkeys name List.mem_cons_self
    cases depth with
    | zero => exact absurd (.inr (hbounded.mem_pending hname)) hfresh
    | succ depth =>
      subst hs
      obtain ⟨_, hfirst, hrest⟩ := ends_forM_cons.mp hends
      rw [visit_ends_of_fresh hfresh] at hfirst
      obtain ⟨hlist, r, r', hbelow, hcode, rfl⟩ := hfirst
      obtain ⟨hvisits, hr⟩ := ihinner (hbounded.opened hname hfresh)
        (fun other hother => hbounded.listed name other hother) rfl hbelow
      have hclosed : r'.history.closed (lower name) = t.closed (lower name) := by
        rw [(loadCode_ends hcode).1, hr]
      obtain ⟨hothers, hleft⟩ := ihrest (hbounded.of_pending_eq hinner.closed_pending)
        (fun other hother => hkeys other (List.mem_cons_of_mem _ hother)) hclosed hrest
      exact ⟨.fresh hfresh hlist hvisits hcode hothers, hleft⟩

/-- Without faults of the file system the names that are met can be visited. -/
theorem exists_visits (ht : Traverses (loader.listed store) h names order h')
    (hbounded : Bounded (loader.listed store) keys h depth)
    (hkeys : ∀ name ∈ names, lower name ∈ keys) (hs : s.history = h)
    (hchecked : ∀ name ∈ order,
      loader.HasReadableList store name ∧ loader.HasSearchableCode store name) :
    ∃ s', loader.Visits store false depth names order s s' ∧ s'.history = h' := by
  induction ht generalizing depth s with
  | nil => exact ⟨s, .nil, hs⟩
  | known hknown _ ih =>
    subst hs
    obtain ⟨s', hvisits, hleft⟩ :=
      ih hbounded (fun name hname => hkeys name (List.mem_cons_of_mem _ hname)) rfl hchecked
    exact ⟨s', .known hknown hvisits, hleft⟩
  | @fresh h name rest inner t order h' hfresh hinner _ ihinner ihrest =>
    have hname := hkeys name List.mem_cons_self
    obtain ⟨hbefore, hrest⟩ := List.forall_mem_append.mp hchecked
    obtain ⟨⟨hlist, hsearch⟩, hafter⟩ := List.forall_mem_cons.mp hrest
    cases depth with
    | zero => exact absurd (.inr (hbounded.mem_pending hname)) hfresh
    | succ depth =>
      subst hs
      obtain ⟨r, hbelow, hr⟩ :=
        ihinner (s := { s with history := s.history.opened (lower name) })
          (hbounded.opened hname hfresh) (fun other hother => hbounded.listed name other hother) rfl
          hbefore
      obtain ⟨r', hcode⟩ := hsearch.ends r
      have hclosed : r'.history.closed (lower name) = t.closed (lower name) := by
        rw [(loadCode_ends hcode).1, hr]
      obtain ⟨s', hothers, hleft⟩ := ihrest
        (s := { r' with history := r'.history.closed (lower name) })
        (hbounded.of_pending_eq hinner.closed_pending)
        (fun other hother => hkeys other (List.mem_cons_of_mem _ hother)) hclosed hafter
      exact ⟨s', .fresh hfresh hlist hbelow hcode hothers, hleft⟩

end Visits

end Loader

end SattLine.Project
