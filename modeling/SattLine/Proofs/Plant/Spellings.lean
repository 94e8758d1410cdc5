import SattLine.Proofs.Plant.Stations
import SattLine.Proofs.Sorting

/-!
The order in which the libraries of programs are added to a station. Main statement: the names that a
station lists do not depend on it but for their letter case, and their letter case does not depend on
it just if no library that is added has two spellings.
-/

namespace SattLine.Plant

open List
open Text (sameName)

/-- The libraries that the programs of a configuration depend on, each spelling once. -/
def needed (components : List Component) (c : Configuration) : List String :=
  (c.programNames.flatMap (librariesOf components)).eraseDups

/-- The libraries of a station, if the libraries of its programs are added in this order. -/
def librariesInOrder (c : Configuration) (order : List String) : List String :=
  Text.sorted (addLibraries c.libraryNames order)

/-- No two spellings of a library are needed, unless the configuration names the library. -/
def IsSpelledOnce (c : Configuration) (names : List String) : Prop :=
  ∀ name ∈ names, ∀ other ∈ names,
    ¬ IsAmong name c.libraryNames → sameName name other = true → name = other

section Additions

variable {libraries names : List String} {name other : String}

theorem any_sameName_iff : (libraries.any fun library => sameName library name) = true ↔
    IsAmong name libraries := by
  rw [any_eq_true, IsAmong]

theorem addLibrary_of_isAmong (h : IsAmong name libraries) : addLibrary libraries name = libraries :=
  if_pos (any_sameName_iff.mpr h)

theorem addLibrary_of_not_isAmong (h : ¬ IsAmong name libraries) :
    addLibrary libraries name = libraries ++ [name] :=
  if_neg (any_sameName_iff.not.mpr h)

theorem isAmong_singleton : IsAmong name [other] ↔ sameName other name = true := by
  simp [IsAmong]

theorem IsAmong.congr (hsame : sameName name other = true) (h : IsAmong name libraries) :
    IsAmong other libraries := by
  obtain ⟨library, hlibrary, heq⟩ := h
  rw [sameName_iff] at hsame heq
  exact ⟨library, hlibrary, sameName_iff.mpr (heq.trans hsame)⟩

/-- A library that is there stays, in its spelling. -/
theorem mem_addLibraries_left (h : name ∈ libraries) : name ∈ addLibraries libraries names := by
  unfold addLibraries
  induction names generalizing libraries with
  | nil => exact h
  | cons first rest ih =>
    refine ih ?_
    by_cases hfirst : IsAmong first libraries
    · rwa [addLibrary_of_isAmong hfirst]
    · rw [addLibrary_of_not_isAmong hfirst]
      exact mem_append_left _ h

/-- What is there in another spelling is not added. -/
theorem mem_of_mem_addLibraries (h : name ∈ addLibraries libraries names) :
    name ∈ libraries ∨ ¬ IsAmong name libraries := by
  unfold addLibraries at h
  induction names generalizing libraries with
  | nil => exact .inl h
  | cons first rest ih =>
    rw [foldl_cons] at h
    by_cases hfirst : IsAmong first libraries
    · exact ih (addLibrary_of_isAmong hfirst ▸ h)
    · rcases ih (addLibrary_of_not_isAmong hfirst ▸ h) with hmem | hfresh
      · rcases mem_append.mp hmem with hmem | hname
        · exact .inl hmem
        · exact .inr (mem_singleton.mp hname ▸ hfirst)
      · exact .inr fun hthere => hfresh (isAmong_append.mpr (.inl hthere))

/-- Where no two names are spellings of one new library, the new ones are appended as they are. -/
theorem addLibraries_eq_append
    (h : names.Pairwise fun name other => ¬ IsAmong name libraries → sameName name other = false) :
    addLibraries libraries names =
      libraries ++ names.filter fun name => !libraries.any fun library => sameName library name := by
  unfold addLibraries
  induction names generalizing libraries with
  | nil => simp
  | cons first rest ih =>
    obtain ⟨hfirst, hrest⟩ := pairwise_cons.mp h
    rw [foldl_cons]
    by_cases hthere : IsAmong first libraries
    · rw [addLibrary_of_isAmong hthere, ih hrest, filter_cons_of_neg]
      simpa using any_sameName_iff.mpr hthere
    · rw [addLibrary_of_not_isAmong hthere, filter_cons_of_pos, ih, append_assoc, singleton_append]
      · -- none of the rest is a spelling of the first
        congr 2
        refine filter_congr fun other hother => ?_
        simp [hfirst other hother hthere]
      · refine hrest.imp fun hpair hfresh => hpair fun hold => hfresh ?_
        exact isAmong_append.mpr (.inl hold)
      · simpa using any_sameName_iff.not.mpr hthere

end Additions

section Order

variable {c : Configuration} {names order : List String} {name : String}

theorem isAmong_librariesInOrder (h : order.Perm names) :
    IsAmong name (librariesInOrder c order) ↔ IsAmong name (librariesInOrder c names) := by
  rw [librariesInOrder, librariesInOrder, isAmong_sorted, isAmong_sorted, isAmong_addLibraries,
    isAmong_addLibraries, isAmong_congr fun _ => h.mem_iff]

theorem IsSpelledOnce.pairwise (h : IsSpelledOnce c names) (hnodup : names.Nodup) :
    names.Pairwise fun name other => ¬ IsAmong name c.libraryNames → sameName name other = false := by
  refine hnodup.imp_of_mem fun hname hother hne hfresh => ?_
  exact Bool.eq_false_iff.mpr fun hsame => hne (h _ hname _ hother hfresh hsame)

theorem IsSpelledOnce.librariesInOrder_eq (h : IsSpelledOnce c names) (hnodup : names.Nodup)
    (hperm : order.Perm names) : librariesInOrder c order = librariesInOrder c names := by
  have horder : IsSpelledOnce c order := fun name hname other hother =>
    h name (hperm.mem_iff.mp hname) other (hperm.mem_iff.mp hother)
  rw [librariesInOrder, librariesInOrder, addLibraries_eq_append (h.pairwise hnodup),
    addLibraries_eq_append (horder.pairwise (hperm.nodup_iff.mpr hnodup))]
  exact Text.sorted_eq_of_perm ((hperm.filter _).append_left _)

/-- Of several spellings of a new library, the one that is added first is listed. -/
theorem mem_librariesInOrder_cons (hfresh : ¬ IsAmong name c.libraryNames) :
    name ∈ librariesInOrder c (name :: names) := by
  rw [librariesInOrder, Text.sorted, mem_mergeSort, addLibraries, foldl_cons,
    addLibrary_of_not_isAmong hfresh]
  exact mem_addLibraries_left (mem_append_right _ (mem_singleton_self name))

theorem eq_of_mem_librariesInOrder_cons {other : String} (hfresh : ¬ IsAmong name c.libraryNames)
    (hsame : sameName name other = true) (h : name ∈ librariesInOrder c (other :: names)) :
    name = other := by
  have hswapped : sameName other name = true := sameName_iff.mpr (sameName_iff.mp hsame).symm
  have hother : ¬ IsAmong other c.libraryNames := fun hthere => hfresh (hthere.congr hswapped)
  rw [librariesInOrder, Text.sorted, mem_mergeSort, addLibraries, foldl_cons,
    addLibrary_of_not_isAmong hother] at h
  rcases mem_of_mem_addLibraries h with hmem | hnew
  · rcases mem_append.mp hmem with hlisted | hlast
    · exact absurd ⟨name, hlisted, beq_self_eq_true _⟩ hfresh
    · exact mem_singleton.mp hlast
  · exact absurd (isAmong_append.mpr (.inr (isAmong_singleton.mpr hswapped))) hnew

/-- If every order gives the same list, each of two spellings could come first. -/
theorem isSpelledOnce_of_librariesInOrder_eq
    (h : ∀ order, order.Perm names → librariesInOrder c order = librariesInOrder c names) :
    IsSpelledOnce c names := by
  intro name hname other hother hfresh hsame
  have hfirst := h _ (perm_cons_erase hname).symm
  have hsecond := h _ (perm_cons_erase hother).symm
  have hlisted : name ∈ librariesInOrder c (other :: names.erase other) := by
    rw [hsecond, ← hfirst]
    exact mem_librariesInOrder_cons hfresh
  exact eq_of_mem_librariesInOrder_cons hfresh hsame hlisted

end Order

section Stations

variable {components : List Component} {configurations : List Configuration} {st : Station}
  {c : Configuration}

theorem nodup_needed : (needed components c).Nodup :=
  nodup_eraseDups _

theorem libraries_eq (h : st ∈ stations components configurations)
    (hconf : configuration? configurations st.configuration = some c) :
    st.libraries = librariesInOrder c (needed components c) := by
  obtain ⟨a, -, id, -, rfl⟩ := mem_stations.mp h
  rw [station_configuration] at hconf
  simp [station, hconf, librariesInOrder, needed]

/-- Whatever the order in which the libraries of its programs are added, a station lists the same
libraries if letter case is ignored. It lists them in the same spelling for every order just if no
library that its configuration does not name is needed in two spellings. -/
theorem libraries_order_free_iff (h : st ∈ stations components configurations)
    (hconf : configuration? configurations st.configuration = some c) :
    (∀ order, order.Perm (needed components c) → ∀ name,
        IsAmong name (librariesInOrder c order) ↔ IsAmong name st.libraries) ∧
      ((∀ order, order.Perm (needed components c) → librariesInOrder c order = st.libraries) ↔
        IsSpelledOnce c (needed components c)) := by
  rw [libraries_eq h hconf]
  refine ⟨fun order hperm name => isAmong_librariesInOrder hperm, ?_, ?_⟩
  · exact isSpelledOnce_of_librariesInOrder_eq
  · exact fun hspelled order hperm => hspelled.librariesInOrder_eq nodup_needed hperm

end Stations

/-! A press, which needs valves, and a mill, which needs a library of a given name. -/

def millPlant (library : String) : List Component :=
  ⟨"Mill", programKind, noAddressFile, noController, noProgramFile, [library]⟩ :: pressPlant

def millConfiguration : Configuration :=
  ⟨"KaGC_LOP04", "2.0", "2004-05-06", [⟨"Press", "unitlib", true⟩, ⟨"Mill", "unitlib", true⟩], []⟩

def millStation (library : String) : Station :=
  station (millPlant library) [millConfiguration] "KaGC_LOP04" "LOP04"

theorem millStation_mem (library : String) :
    millStation library ∈ stations (millPlant library) [millConfiguration] :=
  mem_stations.mpr ⟨⟨"KaGC_LOP04", ["LOP04"]⟩, by decide, "LOP04", by decide, rfl⟩

/-- A mill with signals and the press need two libraries, each in one spelling, so that their panel
lists them in any order. -/
theorem mill_libraries_order_free :
    needed (millPlant "Signals") millConfiguration = ["Valves", "Signals"] ∧
      ∀ order, order.Perm (needed (millPlant "Signals") millConfiguration) →
        librariesInOrder millConfiguration order = (millStation "Signals").libraries := by
  have hneeded : needed (millPlant "Signals") millConfiguration = ["Valves", "Signals"] := by decide
  refine ⟨hneeded, ?_⟩
  refine (libraries_order_free_iff (millStation_mem "Signals") rfl).2.mpr ?_
  intro name hname other hother _ hsame
  rw [hneeded, mem_pair] at hname hother
  rcases hname with rfl | rfl <;> rcases hother with rfl | rfl
  · rfl
  · exact absurd hsame (by decide)
  · exact absurd hsame (by decide)
  · rfl

/-- The panel of a press and a mill that write the name of the valves in two ways shows the spelling
that is added first. -/
theorem mill_libraries_by_order :
    millStation "VALVES" ∈ stations (millPlant "VALVES") [millConfiguration] ∧
      ["Valves", "VALVES"].Perm (needed (millPlant "VALVES") millConfiguration) ∧
      ["VALVES", "Valves"].Perm (needed (millPlant "VALVES") millConfiguration) ∧
      librariesInOrder millConfiguration ["Valves", "VALVES"] = ["Valves"] ∧
      librariesInOrder millConfiguration ["VALVES", "Valves"] = ["VALVES"] := by
  have hneeded : needed (millPlant "VALVES") millConfiguration = ["Valves", "VALVES"] := by decide
  refine ⟨millStation_mem "VALVES", ?_, ?_, ?_, ?_⟩
  · rw [hneeded]
  · rw [hneeded]
    exact .swap _ _ _
  · have hadded : addLibraries [] ["Valves", "VALVES"] = ["Valves"] := by decide
    exact congrArg Text.sorted hadded |>.trans (mergeSort_singleton _)
  · have hadded : addLibraries [] ["VALVES", "Valves"] = ["VALVES"] := by decide
    exact congrArg Text.sorted hadded |>.trans (mergeSort_singleton _)

end SattLine.Plant
