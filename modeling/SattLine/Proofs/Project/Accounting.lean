import SattLine.Proofs.Project.Loading

/-!
Every name of a project is accounted for. Main statement: whatever the lists hold, the traversal
from the root comes to an end; where every list can be read and every file can be looked for,
loading returns, and each of the names met stands exactly once, up to letter case, among the
programs, the missing names and those left to the vendor.
-/

namespace SattLine.Project

open List

theorem putNamed_of_not_mem (nameOf : α → String) (item : α) {items : List α}
    (h : nameOf item ∉ items.map nameOf) : putNamed nameOf item items = items ++ [item] := by
  induction items with
  | nil => rfl
  | cons first rest ih =>
    rw [map_cons, mem_cons, not_or] at h
    rw [putNamed, if_neg (by simpa using Ne.symm h.1), ih h.2, cons_append]

namespace Graph

/-- The names that a graph accounts for: those of programs, those that are missing and those left
to the vendor. -/
def names (graph : Graph) : List String :=
  graph.programs.map Prod.fst ++ (graph.missing.map Missing.name ++ graph.ignored.map Ignored.name)

theorem programs_subset_names (graph : Graph) : graph.programs.map Prod.fst ⊆ graph.names :=
  subset_append_left _ _

end Graph

namespace Loader

variable {loader : Loader} {store : Store}

variable {name : String} {a b : Graph × Marks} {names : List String}

/-- Loading a name that has no program yet adds exactly one entry, and that under its name. -/
theorem Loads.names_perm (h : loader.Loads store name a b) (hnew : name ∉ a.1.names) :
    b.1.names.Perm (a.1.names ++ [name]) := by
  cases h with
  | @program graph marks file p marks' =>
    have hprogram : name ∉ graph.programs.map Prod.fst :=
      fun hmem => hnew (graph.programs_subset_names hmem)
    have hput := putNamed_of_not_mem Prod.fst
      (name, Picture.setOrigin (loader.origin store file) p) hprogram
    simp only [Graph.names, Graph.enter, hput, map_append, map_cons, map_nil,
      append_assoc]
    rw [← append_assoc (graph.missing.map _)]
    exact perm_append_comm.append_left _
  | missing cause =>
    simp only [Graph.names, map_append, map_cons, map_nil, append_assoc]
    exact (perm_append_comm.append_left _).append_left _
  | ignored file =>
    simp [Graph.names]

theorem Loads.others_new (h : loader.Loads store name a b) (hnames : (name :: names).Nodup)
    (hnew : ∀ other ∈ name :: names, other ∉ a.1.names) : ∀ other ∈ names, other ∉ b.1.names := by
  intro other hother hmem
  have hperm := h.names_perm (hnew name mem_cons_self)
  rcases mem_append.mp (hperm.mem_iff.mp hmem) with hold | hname
  · exact hnew other (mem_cons_of_mem _ hother) hold
  · rw [mem_singleton] at hname
    exact (nodup_cons.mp hnames).1 (hname ▸ hother)

theorem LoadsAll.names_perm (h : loader.LoadsAll store names a b) (hnames : names.Nodup)
    (hnew : ∀ name ∈ names, name ∉ a.1.names) : b.1.names.Perm (a.1.names ++ names) := by
  induction h with
  | nil => simp
  | @cons name names a b c hload _ ih =>
    have hperm := hload.names_perm (hnew name mem_cons_self)
    calc c.1.names.Perm (b.1.names ++ names) :=
          ih (nodup_cons.mp hnames).2 (hload.others_new hnames hnew)
      _ |>.Perm ((a.1.names ++ [name]) ++ names) := hperm.append_right _
      _ |>.Perm (a.1.names ++ name :: names) := by simp

end Loader

/-- The entries of a graph, and the history of loading it, account for a project. -/
structure Accounted (loader : Loader) (store : Store) (root : String) (graph : Graph)
    (history : History) : Prop where
  /-- No name has two entries, whatever its letter case. -/
  once : (graph.names.map Text.lower).Nodup
  root_mem : root ∈ graph.names
  /-- What an entry's list holds has an entry. -/
  listed : ∀ name ∈ graph.names, ∀ other ∈ loader.listed store name,
    Text.lower other ∈ graph.names.map Text.lower
  /-- There are no other entries than those that the root leads to. -/
  reached : ∀ name ∈ graph.names, Relation.ReflTransGen
    (fun outer inner => outer ∈ graph.names ∧ inner ∈ loader.listed store outer) root name
  pending : history.pending = []
  done : history.done.Perm (graph.names.map Text.lower)

namespace Traverses

theorem accounted {loader : Loader} {store : Store} {root : String} {order : List String}
    {history : History} (ht : Traverses (loader.listed store) {} [root] order history)
    {graph : Graph} (hnames : graph.names.Perm order) :
    Accounted loader store root graph history where
  once := ((hnames.map Text.lower).nodup_iff).mpr ht.nodup
  root_mem := by
    obtain ⟨inner, rfl⟩ := ht.single (by simp [History.Knows])
    exact hnames.mem_iff.mpr (by simp)
  listed := by
    intro name hname other hother
    have hknows := ht.knows_listed name (hnames.mem_iff.mp hname) other hother
    have hfinished := (ht.knows_iff _).mp hknows
    simp only [History.Knows, not_mem_nil, or_self, or_false] at hfinished
    exact (hnames.map Text.lower).mem_iff.mpr hfinished
  reached := by
    intro name hname
    obtain ⟨first, hfirst, hpath⟩ := ht.reached name (hnames.mem_iff.mp hname)
    rw [mem_singleton] at hfirst
    have hstep : ∀ outer inner, outer ∈ order ∧ inner ∈ loader.listed store outer →
        outer ∈ graph.names ∧ inner ∈ loader.listed store outer :=
      fun outer _ h => ⟨hnames.mem_iff.mpr h.1, h.2⟩
    exact hfirst ▸ Relation.ReflTransGen.mono hstep _ _ hpath
  pending := ht.pending_eq
  done := by
    rw [ht.done_eq, append_nil]
    exact (reverse_perm _).trans (hnames.map Text.lower).symm

end Traverses

namespace Loader

variable {loader : Loader} {store : Store} {root : String} {strict : Bool}

theorem lower_root_mem (store : Store) (root : String) :
    ∀ name ∈ [root], Text.lower name ∈ (root :: store.names).map Text.lower := by
  simp

theorem exists_traverses_root (loader : Loader) (store : Store) (root : String) :
    ∃ order history, Traverses (loader.listed store) {} [root] order history :=
  exists_traverses (loader.bounded_start store root) (lower_root_mem store root)

/-- Loading returns if its steps end, and then gives what they leave. -/
theorem resolve_eq_ok {graph : Graph} {marks : Marks} {history : History} :
    loader.resolve store {} root strict = (.ok (graph, marks), history) ↔
      (if loader.rootOnly then loader.loadRoot store strict root
        else loader.visit store strict (chainLimit store) root).Ends {} ()
          ⟨history, graph, marks⟩ := by
  unfold resolve Loading.Ends
  generalize (if loader.rootOnly then loader.loadRoot store strict root
    else loader.visit store strict (chainLimit store) root) = loading
  generalize hrun : loading.run.run {} = outcome
  have hresult : loading.run.run { history := {} } = outcome := hrun
  rcases outcome with ⟨cause | _, ⟨_, _, _⟩⟩
  · simp only [hresult]
    exact ⟨fun h => (by cases h), fun h => (by cases h)⟩
  · simp only [hresult]
    constructor <;> rintro ⟨⟩ <;> rfl

theorem visits_root (ht : Traverses (loader.listed store) {} [root] order history) {s : Progress}
    (h : (loader.visit store strict (chainLimit store) root).Ends {} () s) :
    loader.Visits store strict (chainLimit store) [root] order {} s ∧ s.history = history :=
  visits_of_ends ht (loader.bounded_start store root) (lower_root_mem store root) rfl
    (Loading.ends_forM_singleton.mpr h)

/-- Loading returns if every list met can be read and every file met can be looked for. -/
theorem exists_resolve_eq_ok (hall : loader.rootOnly = false)
    (ht : Traverses (loader.listed store) {} [root] order history)
    (hchecked : ∀ name ∈ order,
      loader.HasReadableList store name ∧ loader.HasSearchableCode store name) :
    ∃ graph marks, loader.resolve store {} root false = (.ok (graph, marks), history) ∧
      graph.names.Perm order := by
  obtain ⟨s', hvisits, rfl⟩ := exists_visits (s := {}) ht (loader.bounded_start store root)
    (lower_root_mem store root) rfl hchecked
  refine ⟨s'.graph, s'.marks, ?_, hvisits.loads.names_perm ht.nodup.of_map (by simp [Graph.names])⟩
  rw [resolve_eq_ok, hall, if_neg (by simp)]
  exact Loading.ends_forM_singleton.mp hvisits.ends

/-- The traversal of the names that a root leads to comes to an end, whatever the lists hold. If
every list met can be read and every file can be looked for, then loading returns and accounts for
exactly the names met. -/
theorem resolve_accounts_for_names (loader : Loader) (hall : loader.rootOnly = false)
    (store : Store) (root : String) :
    ∃ order history, Traverses (loader.listed store) {} [root] order history ∧
      ((∀ name ∈ order, loader.HasReadableList store name ∧ loader.HasSearchableCode store name) →
        ∃ graph marks, loader.resolve store {} root false = (.ok (graph, marks), history) ∧
          graph.names.Perm order ∧ Accounted loader store root graph history) := by
  obtain ⟨order, history, ht⟩ := loader.exists_traverses_root store root
  refine ⟨order, history, ht, fun hchecked => ?_⟩
  obtain ⟨graph, marks, hresolved, hnames⟩ := exists_resolve_eq_ok hall ht hchecked
  exact ⟨graph, marks, hresolved, hnames, ht.accounted hnames⟩

end Loader

/-- Going into a new name, with its small letters, its list and the histories computed. -/
theorem Traverses.step {next : String → List String} {done pending done' : List String}
    {h' : History} {name key : String} {rest inner order names : List String}
    (hkey : Text.lower name = key) (hnames : next name = names)
    (hfresh : ¬ History.Knows ⟨done, pending⟩ key)
    (hinner : Traverses next ⟨done, key :: pending⟩ names inner ⟨done', key :: pending⟩)
    (hrest : Traverses next ⟨key :: done', pending⟩ rest order h') :
    Traverses next ⟨done, pending⟩ (name :: rest) (inner ++ name :: order) h' := by
  subst hkey hnames
  refine .fresh hfresh hinner ?_
  rwa [History.closed, erase_cons_head]

/-! A project in which two programs depend on each other, one of them under two spellings, and on
a program of the vendor. -/

def circularStore : Store where
  entries := [(["prog"], .folder), (["prog", "A.z"], .file "B\nb\nPump\n".toByteArray),
    (["prog", "B.z"], .file "a\n".toByteArray), (["abb"], .folder),
    (["abb", "Pump.x"], .file ByteArray.empty)]

def plainLoader : Loader where
  programFolder := ⟨true, ["prog"]⟩
  libraryFolders := []
  vendorFolder := ⟨true, ["abb"]⟩
  mode := .official
  rootOnly := false
  ignoreVendor := true

theorem circular_traverses :
    ∃ history, Traverses (plainLoader.listed circularStore) {} ["A"] ["B", "Pump", "A"] history := by
  have hA : plainLoader.listed circularStore "A" = ["B", "b", "Pump"] := by decide +kernel
  have hB : plainLoader.listed circularStore "B" = ["a"] := by decide +kernel
  have hPump : plainLoader.listed circularStore "Pump" = [] := by decide +kernel
  have ha : Text.lower "A" = "a" ∧ Text.lower "a" = "a" := by decide
  have hb : Text.lower "B" = "b" ∧ Text.lower "b" = "b" := by decide
  have hpump : Text.lower "Pump" = "pump" := by decide
  have hback : Traverses (plainLoader.listed circularStore) ⟨[], ["b", "a"]⟩ ["a"] []
      ⟨[], ["b", "a"]⟩ :=
    .known (by simp [History.Knows, ha]) .nil
  have hpumped : Traverses (plainLoader.listed circularStore) ⟨["b"], ["a"]⟩ ["Pump"] ["Pump"]
      ⟨["pump", "b"], ["a"]⟩ :=
    .step hpump hPump (by simp [History.Knows]) .nil .nil
  have hbelow : Traverses (plainLoader.listed circularStore) ⟨[], ["a"]⟩ ["B", "b", "Pump"]
      ["B", "Pump"] ⟨["pump", "b"], ["a"]⟩ :=
    .step hb.1 hB (by simp [History.Knows]) hback (.known (by simp [History.Knows, hb]) hpumped)
  exact ⟨_, .step ha.1 hA (by simp [History.Knows]) hbelow .nil⟩

theorem circular_checked : ∀ name ∈ ["B", "Pump", "A"],
    plainLoader.HasReadableList circularStore name ∧
      plainLoader.HasSearchableCode circularStore name := by
  decide +kernel

theorem circular_accounted : ∃ graph marks history,
    plainLoader.resolve circularStore {} "A" false = (.ok (graph, marks), history) ∧
      graph.names.Perm ["B", "Pump", "A"] ∧
        Accounted plainLoader circularStore "A" graph history := by
  obtain ⟨order, history, ht, hreturns⟩ :=
    Loader.resolve_accounts_for_names plainLoader rfl circularStore "A"
  obtain ⟨history', ht'⟩ := circular_traverses
  obtain ⟨rfl, rfl⟩ := ht'.unique ht
  obtain ⟨graph, marks, hresult⟩ := hreturns fun name hname => circular_checked name hname
  exact ⟨graph, marks, history, hresult⟩

end SattLine.Project
