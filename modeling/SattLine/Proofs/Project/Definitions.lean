import Mathlib.Data.List.Induction
import SattLine.Proofs.Project.Accounting

/-!
The order of the programs of a project, and which definitions count. Without cycles every program
stands behind those that it depends on, and the root is always the last. Main statement: of several
definitions of one name the last one in that order counts, and the names keep the order in which
they first appear.
-/

namespace SattLine.Project

open List

section Named

variable {α : Type} (nameOf : α → String)

/-- The items of a list with their names once each: later ones take the places of earlier ones. -/
def collected (items : List α) : List α :=
  items.foldl (fun found item => putNamed nameOf item found) []

theorem find?_putNamed (item : α) (items : List α) (name : String) :
    (putNamed nameOf item items).find? (nameOf · == name) =
      if nameOf item = name then some item else items.find? (nameOf · == name) := by
  induction items with
  | nil => simp [putNamed]
  | cons first rest ih =>
    rw [putNamed]
    by_cases hfirst : nameOf first = nameOf item
    · by_cases hname : nameOf item = name <;> simp [hfirst, hname]
    · by_cases hname : nameOf item = name
      · have hother : nameOf first ≠ name := hname ▸ hfirst
        simp [hother, ih, hname]
      · simp [hfirst, List.find?_cons, ih, hname]

theorem map_putNamed (item : α) (items : List α) :
    (putNamed nameOf item items).map nameOf =
      if nameOf item ∈ items.map nameOf then items.map nameOf
      else items.map nameOf ++ [nameOf item] := by
  induction items with
  | nil => simp [putNamed]
  | cons first rest ih =>
    rw [putNamed]
    by_cases hfirst : nameOf first = nameOf item
    · simp [hfirst]
    · by_cases hrest : nameOf item ∈ rest.map nameOf
      · rw [if_pos hrest] at ih
        simp [hfirst, ih, hrest]
      · rw [if_neg hrest] at ih
        simp [hfirst, Ne.symm hfirst, ih, hrest]

theorem collected_concat (items : List α) (item : α) :
    collected nameOf (items ++ [item]) = putNamed nameOf item (collected nameOf items) := by
  simp [collected]

/-- Of the items of one name the last counts. -/
theorem find?_collected (items : List α) (name : String) :
    (collected nameOf items).find? (nameOf · == name) =
      (items.filter (nameOf · == name)).getLast? := by
  induction items using List.reverseRecOn with
  | nil => rfl
  | append_singleton items item ih =>
    rw [collected_concat, find?_putNamed, ih]
    by_cases hname : nameOf item = name <;> simp [hname]

/-- The names stand in the order in which they first appear, once each. -/
theorem map_collected (items : List α) :
    (collected nameOf items).map nameOf = (items.map nameOf).eraseDups := by
  induction items using List.reverseRecOn with
  | nil => rfl
  | append_singleton items item ih =>
    rw [collected_concat, map_putNamed, ih, map_append, eraseDups_append]
    by_cases hmem : nameOf item ∈ items.map nameOf
    · have hnone : [nameOf item].removeAll (items.map nameOf) = [] := by
        simpa [List.removeAll] using hmem
      simp [mem_eraseDups, hmem, hnone]
    · have hone : [nameOf item].removeAll (items.map nameOf) = [nameOf item] := by
        simpa [List.removeAll] using hmem
      simp [mem_eraseDups, hmem, hone, eraseDups_cons]

/-- `found` has the names of `all` once each, in the order of their first appearance, and under
each name its last item. -/
structure LastCounts (found all : List α) : Prop where
  names : found.map nameOf = (all.map nameOf).eraseDups
  last : ∀ name, found.find? (nameOf · == name) = (all.filter (nameOf · == name)).getLast?

theorem lastCounts_collected (items : List α) :
    LastCounts nameOf (collected nameOf items) items :=
  ⟨map_collected nameOf items, find?_collected nameOf items⟩

theorem LastCounts.find?_append {found items own : List α}
    (h : LastCounts nameOf found (items ++ own)) {name : String} (hname : name ∈ own.map nameOf) :
    found.find? (nameOf · == name) = (own.filter (nameOf · == name)).getLast? := by
  obtain ⟨item, hitem, rfl⟩ := mem_map.mp hname
  have hne : own.filter (nameOf · == nameOf item) ≠ [] :=
    ne_nil_of_mem (mem_filter.mpr ⟨hitem, beq_self_eq_true _⟩)
  rw [h.last, filter_append, List.getLast?_append_of_ne_nil _ hne]

end Named

namespace Graph

/-- The module types that the programs define, program after program. -/
def allTypes (graph : Graph) : List TypeDef :=
  graph.programs.flatMap fun program => program.2.types

/-- The record types that the programs define, program after program. -/
def allRecords (graph : Graph) : List Value :=
  graph.programs.flatMap fun program => program.2.records

end Graph

namespace Loader

variable {loader : Loader} {store : Store}

theorem LoadsAll.programs {names : List String} {a b : Graph × Marks}
    (h : loader.LoadsAll store names a b) (hnames : names.Nodup)
    (hnew : ∀ name ∈ names, name ∉ a.1.names) :
    ∃ added : List (String × Picture), b.1.programs = a.1.programs ++ added ∧
      (added.map Prod.fst).Sublist names ∧
      b.1.types = (added.flatMap fun program => program.2.types).foldl
        (fun types type => putNamed TypeDef.name type types) a.1.types ∧
      b.1.records = (added.flatMap fun program => program.2.records).foldl
        (fun records record => putNamed recordName record records) a.1.records := by
  induction h with
  | nil => exact ⟨[], by simp⟩
  | @cons name names a b c hload _ ih =>
    obtain ⟨added, hprograms, hsublist, htypes, hrecords⟩ := ih (nodup_cons.mp hnames).2 (hload.others_new hnames hnew)
    cases hload with
    | @program graph marks file p marks' =>
      have hprogram : name ∉ graph.programs.map Prod.fst :=
        fun hmem => hnew name mem_cons_self (graph.programs_subset_names hmem)
      have hput := putNamed_of_not_mem Prod.fst
        (name, Picture.setOrigin (loader.origin store file) p) hprogram
      refine ⟨(name, Picture.setOrigin (loader.origin store file) p) :: added, ?_, ?_, ?_, ?_⟩
      · rw [hprograms, Graph.enter, hput, append_assoc, singleton_append]
      · exact hsublist.cons_cons name
      · rw [htypes, Graph.enter, flatMap_cons, foldl_append]
      · rw [hrecords, Graph.enter, flatMap_cons, foldl_append]
    | missing cause | ignored file => exact ⟨added, hprograms, hsublist.cons name, htypes, hrecords⟩

end Loader

/-- A part of a list keeps the order of two of its items. -/
theorem pair_sublist_of_mem {α : Type} [DecidableEq α] {part whole : List α}
    (h : part.Sublist whole) (hnodup : whole.Nodup) {first second : α} (hfirst : first ∈ part)
    (hsecond : second ∈ part) (hpair : [first, second].Sublist whole) :
    [first, second].Sublist part := by
  have hkept := h.filter (· ∈ part)
  rw [filter_eq_self.mpr (by simp)] at hkept
  have hperm : (whole.filter (· ∈ part)).Perm part :=
    (perm_ext_iff_of_nodup (hnodup.filter _) (hnodup.sublist h)).mpr fun item => by
      simpa using fun hitem => h.subset hitem
  rw [hkept.eq_of_length hperm.length_eq.symm]
  simpa [hfirst, hsecond] using hpair.filter (· ∈ part)

namespace Loader

variable {loader : Loader} {store : Store} {root : String} {strict : Bool} {graph : Graph}
  {marks : Marks} {history : History}

/-- What a project that was loaded is made of: names in some order, of which the root is the last
and each stands behind what it lists unless there is a cycle, and the programs of some of them in
that order. -/
structure LoadedInOrder (loader : Loader) (store : Store) (root : String) (graph : Graph)
    (order : List String) : Prop where
  nodup : (order.map Text.lower).Nodup
  names_perm : graph.names.Perm order
  root_last : ∃ inner, order = inner ++ [root]
  programs_sublist : (graph.programs.map Prod.fst).Sublist order
  listed_before : AcyclicAmong (loader.listed store) order → ∀ name ∈ order,
    ∀ other ∈ loader.listed store name, Text.lower other ∈ order.map Text.lower →
      ∃ earlier, Text.lower earlier = Text.lower other ∧ [earlier, name].Sublist order
  types_eq : graph.types = collected TypeDef.name graph.allTypes
  records_eq : graph.records = collected recordName graph.allRecords

/-- The names that loading goes through when it returns, and what it makes of them. -/
theorem exists_loadsAll
    (h : loader.resolve store {} root strict = (.ok (graph, marks), history)) :
    ∃ order, (order.map Text.lower).Nodup ∧ (∃ inner, order = inner ++ [root]) ∧
      (AcyclicAmong (loader.listed store) order → ∀ name ∈ order,
        ∀ other ∈ loader.listed store name, Text.lower other ∈ order.map Text.lower →
          ∃ earlier, Text.lower earlier = Text.lower other ∧ [earlier, name].Sublist order) ∧
      loader.LoadsAll store order ({}, {}) (graph, marks) := by
  rw [resolve_eq_ok] at h
  by_cases hroot : loader.rootOnly = true
  · rw [if_pos hroot] at h
    have hloads := (loadRoot_ends h).2
    refine ⟨[root], by simp, ⟨[], rfl⟩, ?_, .cons hloads .nil⟩
    intro hacyclic name hname other hother hlisted
    have hcycle : ListedAmong (loader.listed store) [root] (Text.lower name) (Text.lower name) := by
      rw [mem_singleton] at hname
      refine ⟨name, by simp [hname], rfl, other, hother, ?_⟩
      simpa [hname] using hlisted
    exact absurd (.single hcycle) (hacyclic _)
  · rw [if_neg hroot] at h
    obtain ⟨order, history', ht⟩ := loader.exists_traverses_root store root
    have hloads := (visits_root ht h).1.loads
    refine ⟨order, ht.nodup, ht.single (by simp [History.Knows]), ?_, hloads⟩
    intro hacyclic name hname other hother _
    have hbefore := ht.listed_before hacyclic (List.Subset.refl _) (by simp) name hname other hother
    exact hbefore.resolve_left (by simp)

theorem exists_loadedInOrder
    (h : loader.resolve store {} root strict = (.ok (graph, marks), history)) :
    ∃ order, loader.LoadedInOrder store root graph order := by
  obtain ⟨order, hnodup, hroot, hbefore, hloads⟩ := exists_loadsAll h
  have hnew : ∀ name ∈ order, name ∉ ({} : Graph).names := by simp [Graph.names]
  have hnames := hloads.names_perm hnodup.of_map hnew
  obtain ⟨added, hprograms, hsublist, htypes, hrecords⟩ := hloads.programs hnodup.of_map hnew
  rw [nil_append] at hprograms
  subst hprograms
  exact ⟨order, hnodup, hnames, hroot, hsublist, hbefore, htypes, hrecords⟩

namespace LoadedInOrder

variable {order : List String} (h : loader.LoadedInOrder store root graph order)

include h

/-- Without cycles a program stands behind those that it depends on. -/
theorem program_before (hacyclic : AcyclicAmong (loader.listed store) graph.names)
    {name other entry : String}
    (hname : name ∈ graph.programs.map Prod.fst) (hother : other ∈ loader.listed store name)
    (hentry : entry ∈ graph.programs.map Prod.fst) (hsame : Text.lower entry = Text.lower other) :
    [entry, name].Sublist (graph.programs.map Prod.fst) := by
  have horder : AcyclicAmong (loader.listed store) order := by
    intro key hcycle
    apply hacyclic key
    refine Relation.TransGen.mono ?_ _ _ hcycle
    rintro outer inner ⟨n, hn, hlisted⟩
    exact ⟨n, h.names_perm.mem_iff.mpr hn, hlisted⟩
  have hin := h.programs_sublist.subset
  have hmem : Text.lower other ∈ order.map Text.lower :=
    hsame ▸ mem_map_of_mem (hin hentry)
  obtain ⟨earlier, hearlier, hpair⟩ := h.listed_before horder name (hin hname) other hother hmem
  obtain rfl : earlier = entry := inj_on_of_nodup_map h.nodup (hpair.subset (by simp))
    (hin hentry) (hearlier.trans hsame.symm)
  exact pair_sublist_of_mem h.programs_sublist h.nodup.of_map hentry hname hpair

theorem root_program_last {p : Picture} (hp : graph.find? root = some p) :
    ∃ before, graph.programs = before ++ [(root, p)] := by
  obtain ⟨inner, rfl⟩ := h.root_last
  obtain ⟨before, after, hprograms, -⟩ := lookup_eq_some_iff.mp hp
  have hnot : root ∉ inner := by
    have hnodup := h.nodup.of_map
    rw [nodup_append'] at hnodup
    exact fun hmem => hnodup.2.2 hmem (mem_singleton_self root)
  cases after with
  | nil => exact ⟨before, hprograms⟩
  | cons program after =>
    -- A program behind that of the root would stand behind the root among the names.
    have hpair : [root, program.1].Sublist (inner ++ [root]) := by
      refine List.Sublist.trans ?_ h.programs_sublist
      rw [hprograms, map_append, map_cons, map_cons]
      exact ((nil_sublist _).cons_cons _ |>.cons_cons _).trans
        (sublist_append_right _ _)
    obtain ⟨first, second, heq, hfirst, hsecond⟩ := sublist_append_iff.mp hpair
    cases first with
    | nil =>
      have hlength := hsecond.length_le
      rw [← nil_append second, ← heq] at hlength
      simp at hlength
    | cons name rest =>
      obtain ⟨rfl, -⟩ := List.cons.inj heq
      exact absurd (hfirst.subset mem_cons_self) hnot

theorem allTypes_root {p : Picture} (hp : graph.find? root = some p) :
    ∃ before, graph.allTypes = before ++ p.types := by
  obtain ⟨before, hprograms⟩ := h.root_program_last hp
  exact ⟨before.flatMap fun program => program.2.types, by simp [Graph.allTypes, hprograms]⟩

theorem allRecords_root {p : Picture} (hp : graph.find? root = some p) :
    ∃ before, graph.allRecords = before ++ p.records := by
  obtain ⟨before, hprograms⟩ := h.root_program_last hp
  exact ⟨before.flatMap fun program => program.2.records, by simp [Graph.allRecords, hprograms]⟩

theorem types_lastCount : LastCounts TypeDef.name graph.types graph.allTypes := by
  rw [h.types_eq]
  exact lastCounts_collected _ _

theorem records_lastCount : LastCounts recordName graph.records graph.allRecords := by
  rw [h.records_eq]
  exact lastCounts_collected _ _

end LoadedInOrder

end Loader

/-! A root and two programs that it depends on, all with a type `Pump`, which the second of them
spells in capitals. The root has a type of its own besides. -/

def typeValue (name : String) (dateCode : Int) : Value :=
  .element .typeDef [.text name, .int dateCode, .list [], .list [], .list [], .null, .null, .list [],
    .null, .bool false, .null, .null]

def programValue (name : String) (types records : List Value) : Value :=
  .element .basePicture [.element .moduleHeader [.text name, .null, .null, .bool true, .null,
    .bool false, .null, .null, .bool false], .text "BasePicture", .null, .list records, .list types,
    .list [], .list [], .null, .null, .null, .null, .null]

/-- The programs of three sources that hold nothing but their names. -/
def pumpProgram : String → Except Build.SourceError Value
  | "LibA" => .ok (programValue "LibA" [typeValue "Pump" 1] [.element .dataType [.text "Level"]])
  | "LibB" => .ok (programValue "LibB" [typeValue "PUMP" 2] [])
  | name => .ok (programValue name [typeValue "Pump" 3, typeValue "Valve" 3]
      [.element .dataType [.text "Level", .null, .int 3]])

def pumpStore : Store where
  entries := [(["prog"], .folder), (["prog", "Root.z"], .file "LibA\nLibB\n".toByteArray),
    (["prog", "Root.x"], .file "Root".toByteArray), (["prog", "LibA.x"], .file "LibA".toByteArray),
    (["prog", "LibB.x"], .file "LibB".toByteArray)]

def pumpLoader : Loader :=
  { plainLoader with build := pumpProgram }

/-- Module types by their names and date codes. -/
def dated (types : List TypeDef) : List (String × Option Int) :=
  types.map fun type => (type.name, type.dateCode.int?)

theorem map_name_eq (types : List TypeDef) : types.map TypeDef.name = (dated types).map Prod.fst := by
  simp [dated]

theorem pump_resolved : ∃ graph marks history p,
    pumpLoader.resolve pumpStore {} "Root" false = (.ok (graph, marks), history) ∧
      graph.find? "Root" = some p ∧ graph.names = ["LibA", "LibB", "Root"] ∧
        graph.programs.map Prod.fst = ["LibA", "LibB", "Root"] ∧
          dated graph.allTypes = [("Pump", some 1), ("PUMP", some 2), ("Pump", some 3),
            ("Valve", some 3)] ∧ dated p.types = [("Pump", some 3), ("Valve", some 3)] ∧
              p.records.map recordName = ["Level"] := by
  have hcheck : (pumpLoader.resolve pumpStore {} "Root" false).1.toOption.any (fun found =>
      found.1.names == ["LibA", "LibB", "Root"] &&
        found.1.programs.map Prod.fst == ["LibA", "LibB", "Root"] && dated found.1.allTypes ==
          [("Pump", some 1), ("PUMP", some 2), ("Pump", some 3), ("Valve", some 3)] &&
            (found.1.find? "Root").any fun p =>
              dated p.types == [("Pump", some 3), ("Valve", some 3)] &&
                p.records.map recordName == ["Level"]) = true := by
    decide +kernel
  cases hresolved : (pumpLoader.resolve pumpStore {} "Root" false).1 with
  | error cause =>
    rw [hresolved] at hcheck
    cases hcheck
  | ok found =>
    rw [hresolved] at hcheck
    simp only [Except.toOption, Option.any_some, Bool.and_eq_true, beq_iff_eq,
      Option.any_eq_true] at hcheck
    obtain ⟨⟨⟨hnames, hprograms⟩, htypes⟩, p, hp, hown, hrecords⟩ := hcheck
    exact ⟨found.1, found.2, _, p, Prod.ext hresolved rfl, hp, hnames, hprograms, htypes, hown,
      hrecords⟩

theorem pump_acyclic : AcyclicAmong (pumpLoader.listed pumpStore) ["LibA", "LibB", "Root"] := by
  have hedges : ∀ name ∈ ["LibA", "LibB", "Root"], ∀ other ∈ pumpLoader.listed pumpStore name,
      Text.lower name = "root" ∧ Text.lower other ≠ "root" := by
    decide +kernel
  intro key hcycle
  obtain ⟨_, ⟨name, hname, houter, other, hother, -⟩, -⟩ := Relation.TransGen.head'_iff.mp hcycle
  obtain ⟨_, -, last, hlast, -, inner, hinner, hkey⟩ := Relation.TransGen.tail'_iff.mp hcycle
  apply (hedges last hlast inner hinner).2
  rw [hkey, ← houter, (hedges name hname other hother).1]

end SattLine.Project
