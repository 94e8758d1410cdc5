import SattLine.Proofs.Project.Accounting

/-!
Loading a project with defective files when faults are not to stop it. Main statement: where files
can be looked for, loading returns exactly if every list of dependencies that is met can be read;
then every code file that is met and gives no program is noted as missing with its defect, and
nothing else is noted than such files and names without code. A list that cannot be read stops it.
-/

namespace SattLine.Project

namespace Loader

open Loading

variable {loader : Loader} {store : Store} {s s' : Progress} {u : Unit} {name : String}

/-- Why the text in a file gives no program: it cannot be read, or it is not well-formed. -/
inductive Defect (loader : Loader) (store : Store) (file : Location) : LoadError → Prop
  | unreadable {cause} (h : store.text file = .error cause) :
      Defect loader store file (.unreadable cause)
  | malformed {source cause} (htext : store.text file = .ok source)
      (h : loader.build source = .error cause) : Defect loader store file (.malformed cause)

variable {file : Location} {cause : LoadError}

theorem Defect.readProgram_eq (h : loader.Defect store file cause) (marks : Marks) :
    loader.readProgram store file marks = .error cause := by
  cases h with
  | unreadable h => simp only [readProgram, h]
  | malformed htext h => simp only [readProgram, htext, h]

/-- The list of a name can be looked for. -/
def HasSearchableList (loader : Loader) (store : Store) (name : String) : Prop :=
  ∃ found, loader.list? store name = .ok found

instance : Decidable (loader.HasSearchableList store name) :=
  match h : loader.list? store name with
  | .ok found => .isTrue ⟨found, h⟩
  | .error _ => .isFalse fun ⟨_, hfound⟩ => by simp [h] at hfound

/-- A name is noted as missing because it has no code or because its code gives no program. -/
inductive Explained (loader : Loader) (store : Store) : Missing → Prop
  | noCode {missed : String} (h : loader.code? store missed = .ok none) :
      Explained loader store ⟨missed, .noCode missed loader.mode⟩
  | noProgram {missed : String} {file : Location} {marks : Marks} {cause : LoadError}
      (hfile : loader.code? store missed = .ok (some file))
      (h : loader.readProgram store file marks = .error cause) : Explained loader store ⟨missed, cause⟩

/-- What the missing names are after a code file is loaded: one more if it gives no program. -/
theorem loadFile_missing (h : (loader.loadFile store false name file).Ends s u s') :
    (∃ cause, loader.readProgram store file s.marks = .error cause ∧
      s'.graph.missing = s.graph.missing ++ [⟨name, cause⟩]) ∨
    (∃ result, loader.readProgram store file s.marks = .ok result) ∧
      s'.graph.missing = s.graph.missing := by
  simp only [loadFile, ends_bind, ends_get] at h
  obtain ⟨_, _, ⟨rfl, rfl⟩, h⟩ := h
  split at h
  · next cause hread =>
    simp only [giveUp, Bool.false_eq_true, ↓reduceIte, change, ends_modify] at h
    subst h
    exact .inl ⟨cause, hread, rfl⟩
  · next hread =>
    rw [ends_modify] at h
    subst h
    exact .inr ⟨⟨_, hread⟩, rfl⟩

/-- Loading the code of a name keeps the missing names and adds none without an explanation. -/
theorem loadCode_explained (h : (loader.loadCode store false name).Ends s u s') :
    s.graph.missing ⊆ s'.graph.missing ∧
      ∀ entry ∈ s'.graph.missing, entry ∈ s.graph.missing ∨ loader.Explained store entry := by
  simp only [loadCode, ends_bind, ends_ofRead] at h
  obtain ⟨code, _, ⟨hcode, rfl⟩, h⟩ := h
  cases code with
  | some file =>
    rcases loadFile_missing h with ⟨cause, hread, hmissing⟩ | ⟨-, hmissing⟩
    · rw [hmissing]
      refine ⟨List.subset_append_left _ _, fun entry hentry => ?_⟩
      rcases List.mem_append.mp hentry with hold | hnew
      · exact .inl hold
      · rw [List.mem_singleton.mp hnew]
        exact .inr (.noProgram hcode hread)
    · rw [hmissing]
      exact ⟨fun _ h => h, fun _ h => .inl h⟩
  | none =>
    simp only [ends_bind, ends_ofRead] at h
    obtain ⟨vendorCode, _, ⟨-, rfl⟩, vendorList, _, ⟨-, rfl⟩, h⟩ := h
    split at h
    · rw [change, ends_modify] at h
      subst h
      exact ⟨fun _ h => h, fun _ h => .inl h⟩
    · simp only [giveUp, Bool.false_eq_true, ↓reduceIte, change,
        ends_modify] at h
      subst h
      refine ⟨List.subset_append_left _ _, fun entry hentry => ?_⟩
      rcases List.mem_append.mp hentry with hold | hnew
      · exact .inl hold
      · rw [List.mem_singleton.mp hnew]
        exact .inr (.noCode hcode)

theorem loadCode_records (hcode : loader.code? store name = .ok (some file))
    (hdefect : loader.Defect store file cause)
    (h : (loader.loadCode store false name).Ends s u s') : ⟨name, cause⟩ ∈ s'.graph.missing := by
  simp only [loadCode, hcode, ofRead_ok, pure_bind] at h
  rcases loadFile_missing h with ⟨found, hread, hmissing⟩ | ⟨⟨result, hread⟩, -⟩
  · rw [hdefect.readProgram_eq] at hread
    cases hread
    simp [hmissing]
  · rw [hdefect.readProgram_eq] at hread
    cases hread

/-- The missing names account for the defective code files of some names. -/
structure NotesDefects (loader : Loader) (store : Store) (order : List String)
    (before after : Graph) : Prop where
  kept : before.missing ⊆ after.missing
  recorded : ∀ name ∈ order, ∀ file cause, loader.code? store name = .ok (some file) →
    loader.Defect store file cause → ⟨name, cause⟩ ∈ after.missing
  explained : ∀ entry ∈ after.missing, entry ∈ before.missing ∨ loader.Explained store entry

namespace NotesDefects

variable {first rest : List String} {a b c : Graph}

theorem nil (graph : Graph) : loader.NotesDefects store [] graph graph :=
  ⟨fun _ h => h, by simp, fun _ h => .inl h⟩

theorem append (hfirst : loader.NotesDefects store first a b)
    (hrest : loader.NotesDefects store rest b c) :
    loader.NotesDefects store (first ++ rest) a c where
  kept := List.Subset.trans hfirst.kept hrest.kept
  recorded := by
    intro name hname file cause hcode hdefect
    rcases List.mem_append.mp hname with hname | hname
    · exact hrest.kept (hfirst.recorded name hname file cause hcode hdefect)
    · exact hrest.recorded name hname file cause hcode hdefect
  explained := by
    intro entry hentry
    exact (hrest.explained entry hentry).elim (hfirst.explained entry) .inr

theorem of_loadCode (h : (loader.loadCode store false name).Ends s u s') :
    loader.NotesDefects store [name] s.graph s'.graph where
  kept := (loadCode_explained h).1
  recorded := by
    intro other hother file cause hcode hdefect
    obtain rfl := List.mem_singleton.mp hother
    exact loadCode_records hcode hdefect h
  explained := (loadCode_explained h).2

end NotesDefects

/-- Where visits return, the lists of the names that they finish can be read, and the defects of
their code are noted. -/
theorem Visits.notes {depth : Nat} {names order : List String}
    (h : loader.Visits store false depth names order s s') :
    (∀ name ∈ order, loader.HasReadableList store name) ∧
      loader.NotesDefects store order s.graph s'.graph := by
  induction h with
  | nil => exact ⟨by simp, .nil _⟩
  | known _ _ ih => exact ih
  | fresh _ hlist _ hcode _ ihinner ihrest =>
    refine ⟨List.forall_mem_append.mpr ⟨ihinner.1, ?_⟩, ?_⟩
    · exact List.forall_mem_cons.mpr ⟨hlist, ihrest.1⟩
    · exact ihinner.2.append ((NotesDefects.of_loadCode hcode).append ihrest.2)

variable {root : String} {order : List String} {history : History}

/-- A load that returns has read every list that it met, and has noted the defects. -/
theorem resolve_notes (hall : loader.rootOnly = false)
    (ht : Traverses (loader.listed store) {} [root] order history) {graph : Graph} {marks : Marks}
    (h : (loader.resolve store {} root false).1 = .ok (graph, marks)) :
    (∀ name ∈ order, loader.HasReadableList store name) ∧
      loader.NotesDefects store order {} graph := by
  have hends := resolve_eq_ok.mp (Prod.ext h rfl)
  rw [hall, if_neg (by simp)] at hends
  exact (visits_root ht hends).1.notes

/-- Loading the root alone returns if its code can be looked for, and notes its defect. -/
theorem resolve_root_returns (hroot : loader.rootOnly = true)
    (hcode : ∃ found, loader.code? store root = .ok found) :
    ∃ graph marks, (loader.resolve store {} root false).1 = .ok (graph, marks) ∧
      ∀ file cause, loader.code? store root = .ok (some file) → loader.Defect store file cause →
        ⟨root, cause⟩ ∈ graph.missing := by
  obtain ⟨found, hfound⟩ := hcode
  have hends : ∃ s', (loader.loadRoot store false root).Ends {} () s' := by
    simp only [loadRoot, hfound, ofRead_ok, pure_bind]
    cases found with
    | some file => exact exists_loadFile_ends root file {}
    | none => exact exists_giveUp_ends root _ {}
  obtain ⟨⟨finished, graph, marks⟩, hends⟩ := hends
  have hresolved : loader.resolve store {} root false = (.ok (graph, marks), finished) :=
    resolve_eq_ok.mpr (by rwa [hroot, if_pos rfl])
  refine ⟨graph, marks, by rw [hresolved], ?_⟩
  intro file cause hfile hdefect
  simp only [loadRoot, hfile, ofRead_ok, pure_bind] at hends
  rcases loadFile_missing hends with ⟨found, hread, hmissing⟩ | ⟨⟨result, hread⟩, -⟩
  · rw [hdefect.readProgram_eq] at hread
    cases hread
    exact hmissing ▸ (by simp)
  · rw [hdefect.readProgram_eq] at hread
    cases hread

/-- Where faults do not stop loading and files can be looked for, a project is loaded exactly if
every list of dependencies that is met can be read. Then the defective code files that are met are
the ones noted as missing, besides names without code. A root alone is always loaded so. -/
theorem resolve_returns_iff_lists_readable (loader : Loader) (store : Store) (root : String) :
    (loader.rootOnly = false → ∃ order history,
      Traverses (loader.listed store) {} [root] order history ∧
      ((∀ name ∈ order, loader.HasSearchableList store name ∧
          loader.HasSearchableCode store name) →
        ((∃ graph marks, (loader.resolve store {} root false).1 = .ok (graph, marks)) ↔
          ∀ name ∈ order, loader.HasReadableList store name) ∧
        ∀ graph marks, (loader.resolve store {} root false).1 = .ok (graph, marks) →
          loader.NotesDefects store order {} graph)) ∧
    (loader.rootOnly = true → (∃ found, loader.code? store root = .ok found) →
      ∃ graph marks, (loader.resolve store {} root false).1 = .ok (graph, marks) ∧
        ∀ file cause, loader.code? store root = .ok (some file) → loader.Defect store file cause →
          ⟨root, cause⟩ ∈ graph.missing) := by
  refine ⟨fun hall => ?_, resolve_root_returns⟩
  obtain ⟨order, history, ht⟩ := loader.exists_traverses_root store root
  refine ⟨order, history, ht, fun hpaths => ⟨⟨?_, fun hlists => ?_⟩, fun graph marks h => ?_⟩⟩
  · rintro ⟨graph, marks, h⟩
    exact (resolve_notes hall ht h).1
  · obtain ⟨graph, marks, h, -⟩ := exists_resolve_eq_ok hall ht fun name hname =>
      ⟨hlists name hname, (hpaths name hname).2⟩
    exact ⟨graph, marks, by rw [h]⟩
  · exact (resolve_notes hall ht h).2

end Loader

/-! A project in which neither of two code files can be read, and one in which the list of the root
cannot be read. -/

def garbled : Entry :=
  .file ⟨#[0x81]⟩

def garbledCodeStore : Store where
  entries := [(["prog"], .folder), (["prog", "A.z"], .file "B\n".toByteArray),
    (["prog", "A.x"], garbled), (["prog", "B.x"], garbled)]

theorem garbled_code_traverses :
    ∃ history, Traverses (plainLoader.listed garbledCodeStore) {} ["A"] ["B", "A"] history := by
  have hA : plainLoader.listed garbledCodeStore "A" = ["B"] := by decide +kernel
  have hB : plainLoader.listed garbledCodeStore "B" = [] := by decide +kernel
  have ha : Text.lower "A" = "a" := by decide
  have hb : Text.lower "B" = "b" := by decide
  have hbelow : Traverses (plainLoader.listed garbledCodeStore) ⟨[], ["a"]⟩ ["B"] ["B"]
      ⟨["b"], ["a"]⟩ :=
    .step hb hB (by simp [History.Knows]) .nil .nil
  exact ⟨_, .step ha hA (by simp [History.Knows]) hbelow .nil⟩

/-- Why the byte cannot be read. -/
def garbledCause : LoadError :=
  .unreadable (.undecodable ⟨0x81, 0⟩)

theorem garbled_code_noted : ∃ graph marks,
    (plainLoader.resolve garbledCodeStore {} "A" false).1 = .ok (graph, marks) ∧
      ⟨"A", garbledCause⟩ ∈ graph.missing ∧ ⟨"B", garbledCause⟩ ∈ graph.missing := by
  obtain ⟨order, history, ht, hsettled⟩ :=
    (Loader.resolve_returns_iff_lists_readable plainLoader garbledCodeStore "A").1 rfl
  obtain ⟨history', ht'⟩ := garbled_code_traverses
  obtain ⟨rfl, rfl⟩ := ht'.unique ht
  obtain ⟨hreturns, hnotes⟩ := hsettled (by decide +kernel)
  obtain ⟨graph, marks, hresolved⟩ := hreturns.mpr (by decide +kernel)
  have hnoted := (hnotes graph marks hresolved).recorded
  refine ⟨graph, marks, hresolved, ?_, ?_⟩
  · exact hnoted "A" (by simp) ⟨true, ["prog", "A.x"]⟩ _ (by decide +kernel)
      (.unreadable (by decide +kernel))
  · exact hnoted "B" (by simp) ⟨true, ["prog", "B.x"]⟩ _ (by decide +kernel)
      (.unreadable (by decide +kernel))

def garbledListStore : Store where
  entries := [(["prog"], .folder), (["prog", "A.z"], garbled), (["prog", "A.x"], garbled)]

/-- Files can be looked for, but the list of the root stops loading. -/
theorem garbled_list_stops_loading :
    plainLoader.list? garbledListStore "A" = .ok (some ⟨true, ["prog", "A.z"]⟩) ∧
      plainLoader.HasSearchableCode garbledListStore "A" ∧
      ((plainLoader.resolve garbledListStore {} "A" false).1.mapError LoadError.message).map
        (fun _ => ()) = .error ("'charmap' codec can't decode byte 0x81 in position 0: " ++
          "character maps to <undefined>") := by
  decide +kernel

end SattLine.Project
