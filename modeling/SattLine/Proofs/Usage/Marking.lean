import Mathlib.Data.List.Count
import SattLine.Proofs.Build.ModuleCode
import SattLine.Proofs.Program.Uses
import SattLine.Proofs.Usage.Linked
import SattLine.Proofs.Usage.Located

/-!
The marks that code leaves. Main statement: walking over the code of a module adds to each variable
as many uses of each kind as there are references to it at sites of that kind, all of them with the
path of the walk, and changes nothing else.
-/

namespace SattLine

namespace Marks

theorem get_noteAll {marks : Marks} (v : Variable) {w : Variable} (hw : w.id < marks.next)
    (places : List (Path × Access)) :
    (marks.noteAll v places).get w =
      if v.id = w.id then (marks.get w).noteAll places else marks.get w := by
  induction places generalizing marks with
  | nil => split <;> rfl
  | cons place rest ih =>
    have hsize : w.id < (marks.note v place.2 place.1).next := by
      rwa [next, note, Array.size_modify]
    have hstep : marks.noteAll v (place :: rest) =
        (marks.note v place.2 place.1).noteAll v rest := rfl
    rw [hstep, ih hsize, get_note]
    by_cases hid : v.id = w.id
    · rw [if_pos hid, if_pos hid, if_pos ⟨hid, hid ▸ hw⟩]
      rfl
    · simp [hid]

end Marks

namespace Usage

open Walk
open Build (references isModuleCode_of_valueOf valueOf smallCode isOf_smallCode)
open Syntax (Tree IsOf)

section Meaning

variable (p : Picture) (scope : List Variable)

/-- The variable that a reference at a site means: the one in scope that has its base name in small
letters. Only a bare argument of a library routine may mean a variable elsewhere in the program. -/
def meant (place : Site × Value) : Option Variable :=
  match baseName place.2 with
  | .ok (some name) =>
    match Variable.find? scope name, place.1 with
    | some x, _ => some x
    | none, .argument _ => p.find? name
    | none, _ => none
  | _ => none

/-- Whether a reference at a site means a variable. -/
def means (x : Variable) (place : Site × Value) : Bool :=
  (meant p scope place).map Variable.id == some x.id

/-- The number of references to a variable at sites of that access. -/
def uses (x : Variable) (access : Access) (v : Value) : Nat :=
  (located v).countP fun place => place.1.accesses.contains access && means p scope x place

/-- The uses of a variable by references at their sites. -/
def usesIn (path : Path) (x : Variable) (places : List (Site × Value)) : List (Path × Access) :=
  places.flatMap fun place =>
    if means p scope x place then place.1.accesses.map fun access => (path, access) else []

/-- The marks that a reference leaves. -/
def markedAt (path : Path) (place : Site × Value) (marks : Marks) : Marks :=
  match meant p scope place with
  | some y => marks.noteAll y (place.1.accesses.map fun access => (path, access))
  | none => marks

end Meaning

section Recording

variable {p : Picture} {scope : List Variable} {path : Path} {s s' : State}

theorem count_accesses (path : Path) (site : Site) (access : Access) :
    (site.accesses.map fun access => (path, access)).count (path, access) =
      if site.accesses.contains access then 1 else 0 := by
  have hinjective : Function.Injective fun access : Access => (path, access) :=
    fun _ _ heq => (Prod.mk.inj heq).2
  rw [List.count_map_of_injective _ _ hinjective]
  cases site with
  | argument direction => cases direction <;> cases access <;> rfl
  | target | elsewhere => cases access <;> rfl

theorem usesIn_cons (x : Variable) (place : Site × Value) (rest : List (Site × Value)) :
    usesIn p scope path x (place :: rest) =
      (if means p scope x place then place.1.accesses.map fun access => (path, access) else []) ++
        usesIn p scope path x rest :=
  rfl

theorem count_usesIn (x : Variable) (access : Access) (places : List (Site × Value)) :
    (usesIn p scope path x places).count (path, access) =
      places.countP fun place => place.1.accesses.contains access && means p scope x place := by
  induction places with
  | nil => rfl
  | cons place rest ih =>
    rw [usesIn_cons, List.count_append, ih, List.countP_cons]
    by_cases hmeans : means p scope x place = true
    · rw [if_pos hmeans, count_accesses, Nat.add_comm]
      simp [hmeans]
    · simp [hmeans]

theorem path_of_mem_usesIn {x : Variable} {places : List (Site × Value)} :
    ∀ use ∈ usesIn p scope path x places, use.1 = path := by
  intro use huse
  obtain ⟨place, -, hmem⟩ := List.mem_flatMap.mp huse
  split at hmem
  · obtain ⟨access, -, rfl⟩ := List.mem_map.mp hmem
    rfl
  · cases hmem

theorem next_markedAt (place : Site × Value) (marks : Marks) :
    (markedAt p scope path place marks).next = marks.next := by
  unfold markedAt
  cases meant p scope place with
  | none => rfl
  | some y => exact (marks.grows_noteAll y _).size_eq

theorem get_markedAt (place : Site × Value) {marks : Marks} {x : Variable}
    (hx : x.id < marks.next) :
    (markedAt p scope path place marks).get x = (marks.get x).noteAll
      (if means p scope x place then place.1.accesses.map fun access => (path, access) else []) := by
  unfold markedAt means
  cases meant p scope place with
  | none => simp [noteAll]
  | some y =>
    simp only [Marks.get_noteAll y hx]
    by_cases hid : y.id = x.id
    · simp [hid]
    · simp [hid, noteAll]

theorem record_append {first rest : List Finding} {t : State}
    (hfirst : (record p scope path first).Ends s () t)
    (hrest : (record p scope path rest).Ends t () s') :
    (record p scope path (first ++ rest)).Ends s () s' := by
  induction first generalizing s with
  | nil =>
    obtain ⟨-, rfl⟩ := ends_pure.mp hfirst
    exact hrest
  | cons finding others ih =>
    cases finding with
    | error problem => exact absurd hfirst ends_throw
    | ok o =>
      rw [List.cons_append, record]
      rw [record] at hfirst
      cases hresolve : resolve p scope o with
      | none =>
        simp only [hresolve] at hfirst ⊢
        exact ih hfirst
      | some v =>
        simp only [hresolve, ends_bind] at hfirst ⊢
        obtain ⟨u, between, hmark, hothers⟩ := hfirst
        exact ⟨u, between, hmark, ih hothers⟩

/-- The accesses to a name mark the variable that it means, one after the other. -/
theorem record_named (name : String) (kinds : List Access) (reach : Reach) (s : State) :
    (record p scope path (kinds.map fun access => .ok ⟨name, access, reach⟩)).Ends s ()
      { s with marks := match resolve p scope ⟨name, .read, reach⟩ with
        | some y => s.marks.noteAll y (kinds.map fun access => (path, access))
        | none => s.marks } := by
  induction kinds generalizing s with
  | nil => cases resolve p scope ⟨name, .read, reach⟩ <;> rfl
  | cons access rest ih =>
    have hresolve : resolve p scope ⟨name, access, reach⟩ =
        resolve p scope ⟨name, .read, reach⟩ := by
      cases reach <;> rfl
    rw [List.map_cons, record, hresolve]
    cases hfound : resolve p scope ⟨name, .read, reach⟩ with
    | none =>
      have hrest := ih s
      rw [hfound] at hrest
      exact hrest
    | some y =>
      have hrest := ih { s with marks := s.marks.note y access path }
      rw [hfound] at hrest
      simp only [ends_bind]
      exact ⟨(), _, rfl, hrest⟩

/-- A reference is recorded with the accesses of its site, if it means a variable. -/
theorem record_foundAt {place : Site × Value} {base : Option String}
    (hbase : baseName place.2 = .ok base) (s : State) :
    (record p scope path (foundAt place)).Ends s ()
      { s with marks := markedAt p scope path place s.marks } := by
  cases base with
  | none =>
    simp only [foundAt, Usage.accesses, hbase, markedAt, meant]
    rfl
  | some name =>
    have hmeant : meant p scope place = resolve p scope ⟨name, .read, place.1.reach⟩ := by
      simp only [meant, hbase]
      cases place.1 <;> cases hfind : Variable.find? scope name <;>
        simp [resolve, Site.reach, hfind]
    simp only [foundAt, Usage.accesses, hbase, markedAt, hmeant]
    exact record_named name place.1.accesses place.1.reach s

/-- References at their sites are recorded with all their uses and nothing else. -/
theorem record_places {places : List (Site × Value)}
    (h : ∀ place ∈ places, ∃ base, baseName place.2 = .ok base) (s : State) :
    ∃ marks, (record p scope path (places.flatMap foundAt)).Ends s () { s with marks := marks } ∧
      marks.next = s.marks.next ∧ ∀ x : Variable, x.id < s.marks.next →
        marks.get x = (s.marks.get x).noteAll (usesIn p scope path x places) := by
  induction places generalizing s with
  | nil => exact ⟨s.marks, rfl, rfl, fun _ _ => rfl⟩
  | cons place rest ih =>
    obtain ⟨⟨base, hbase⟩, hrest⟩ := List.forall_mem_cons.mp h
    obtain ⟨marks, hends, hnext, hget⟩ :=
      ih hrest { s with marks := markedAt p scope path place s.marks }
    refine ⟨marks, ?_, hnext.trans (next_markedAt place s.marks), fun x hx => ?_⟩
    · rw [List.flatMap_cons]
      exact record_append (record_foundAt hbase s) hends
    · have hlater : x.id < (markedAt p scope path place s.marks).next := by
        rwa [next_markedAt]
      rw [hget x hlater, get_markedAt place hx, usesIn_cons, noteAll_append]

end Recording

/-- The code of a module marks each variable just as often, and in just the ways, as it refers to
it, and does nothing else. The ways of arguments are those of the routine of the library that has
the called name in small letters; arguments beyond its parameters are inputs. -/
theorem code_marks_exactly {tree : Tree} {v : Value} (htree : IsOf "modulecode" tree)
    (hv : valueOf tree = .ok v) (p : Picture) (scope : List Variable) (path : Path) (s : State) :
    (∀ name routine, Routine.find? name = some routine ↔
      routine ∈ Routine.library ∧ routine.name = Text.lower name) ∧
    (∀ (routine : Routine) place, routine.directionAt place =
      (routine.parameters.map Routine.Parameter.direction).getD place .input) ∧
    (located v).map Prod.snd = references v ∧
      ∃ marks, (record p scope path (code v)).Ends s () { s with marks := marks } ∧
        marks.next = s.marks.next ∧ ∀ x : Variable, x.id < s.marks.next →
          ∃ new, marks.get x = (s.marks.get x).noteAll new ∧
            (marks.get x).places = (s.marks.get x).places ++ new ∧
            (∀ use ∈ new, use.1 = path) ∧
            ∀ access, new.count (path, access) = uses p scope x access v := by
  have hreferences : (located v).map Prod.snd = references v := map_snd_locatedAt .elsewhere v
  refine ⟨fun _ _ => Routine.find?_eq_some_iff, Routine.directionAt_eq, hreferences, ?_⟩
  have hnamed : ∀ place ∈ located v, ∃ base, baseName place.2 = .ok base := by
    intro place hplace
    have hmem : place.2 ∈ references v := hreferences ▸ List.mem_map_of_mem hplace
    obtain ⟨-, -, -, -, hbase, -⟩ := (isModuleCode_of_valueOf htree hv).referring _ hmem
    exact hbase
  obtain ⟨marks, hends, hnext, hget⟩ := record_places hnamed s
  rw [← code_eq_flatMap_located (isModuleCode_of_valueOf htree hv)] at hends
  refine ⟨marks, hends, hnext, fun x hx => ⟨usesIn p scope path x (located v), hget x hx, ?_,
    path_of_mem_usesIn, fun access => count_usesIn x access (located v)⟩⟩
  rw [hget x hx, places_noteAll]

/-- The value of the code `Out = In` and `WriteLine(Log, In, Job, Out.Status)` with a sequence that
waits for `Out`. -/
def smallValue : Value :=
  (valueOf smallCode).toOption.getD .null

def smallScope : List Variable :=
  [integerVariable 0 "OUT", integerVariable 1 "In", integerVariable 2 "job"]

/-- How often the code reads and writes its variables. The last argument of `WriteLine` goes out, the
one before it both ways. -/
def smallCounts : List (Variable × Nat × Nat) :=
  [(integerVariable 0 "OUT", 1, 2), (integerVariable 1 "In", 2, 0), (integerVariable 2 "job", 1, 1)]

theorem smallCode_marks_exactly :
    ∃ marks, (record shadedPicture smallScope ["Plant"] (code smallValue)).Ends
        ⟨⟨#[{}, {}, {}]⟩, [], [], []⟩ () ⟨marks, [], [], []⟩ ∧
      ∀ entry ∈ smallCounts, (marks.get entry.1).places.count (["Plant"], .read) = entry.2.1 ∧
        (marks.get entry.1).places.count (["Plant"], .write) = entry.2.2 := by
  have hv : valueOf smallCode = .ok smallValue := rfl
  obtain ⟨-, -, -, marks, hends, -, hmarks⟩ := code_marks_exactly isOf_smallCode hv shadedPicture
    smallScope ["Plant"] ⟨⟨#[{}, {}, {}]⟩, [], [], []⟩
  have huses : ∀ entry ∈ smallCounts, entry.1.id < 3 ∧
      (Marks.get ⟨#[{}, {}, {}]⟩ entry.1).places = [] ∧
      uses shadedPicture smallScope entry.1 .read smallValue = entry.2.1 ∧
        uses shadedPicture smallScope entry.1 .write smallValue = entry.2.2 := by
    decide +kernel
  refine ⟨marks, hends, fun entry hentry => ?_⟩
  obtain ⟨hid, hnone, hreads, hwrites⟩ := huses entry hentry
  obtain ⟨new, -, hplaces, -, hcount⟩ := hmarks entry.1 hid
  have hsame : ∀ access, (marks.get entry.1).places.count (["Plant"], access) =
      uses shadedPicture smallScope entry.1 access smallValue := by
    intro access
    rw [hplaces, List.count_append, hcount]
    simp [hnone]
  exact ⟨(hsame .read).trans hreads, (hsame .write).trans hwrites⟩

end Usage

end SattLine
