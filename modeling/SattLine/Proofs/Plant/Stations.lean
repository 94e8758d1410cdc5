import Mathlib.Logic.Relation
import Mathlib.Tactic.SplitIfs
import SattLine.Plant.Station

/-!
What stations run. A station lists the programs and libraries of its configuration, and the
libraries that its programs depend on themselves. Main statement: of what its programs need through
chains of dependencies, just the first link of each chain is listed.
-/

namespace SattLine.Plant

open List
open Text (sameName)

/-- A name is listed, whatever its letter case. -/
def IsAmong (name : String) (names : List String) : Prop :=
  ∃ other ∈ names, sameName other name = true

section IsAmong

variable {name : String} {names others : List String}

theorem sameName_iff {first second : String} :
    sameName first second = true ↔ Text.lower first = Text.lower second :=
  beq_iff_eq

@[simp] theorem isAmong_append :
    IsAmong name (names ++ others) ↔ IsAmong name names ∨ IsAmong name others := by
  simp [IsAmong, or_and_right, exists_or]

/-- Only the members of a list matter. -/
theorem isAmong_congr (h : ∀ other, other ∈ names ↔ other ∈ others) :
    IsAmong name names ↔ IsAmong name others := by
  simp [IsAmong, h]

@[simp] theorem isAmong_sorted : IsAmong name (Text.sorted names) ↔ IsAmong name names :=
  isAmong_congr fun _ => mem_mergeSort

@[simp] theorem isAmong_eraseDups : IsAmong name names.eraseDups ↔ IsAmong name names :=
  isAmong_congr fun _ => mem_eraseDups

theorem isAmong_flatMap {α : Type} {xs : List α} {f : α → List String} :
    IsAmong name (xs.flatMap f) ↔ ∃ x ∈ xs, IsAmong name (f x) := by
  simp only [IsAmong, mem_flatMap]
  constructor
  · rintro ⟨other, ⟨x, hx, hother⟩, hsame⟩
    exact ⟨x, hx, other, hother, hsame⟩
  · rintro ⟨x, hx, other, hother, hsame⟩
    exact ⟨other, ⟨x, hx, hother⟩, hsame⟩

variable {libraries : List String}

/-- A library that is left out is there in another letter case. -/
theorem isAmong_addLibrary {library : String} :
    IsAmong name (addLibrary libraries library) ↔
      IsAmong name libraries ∨ sameName library name = true := by
  unfold addLibrary
  split_ifs with hthere
  · obtain ⟨other, hother, hsame⟩ := any_eq_true.mp hthere
    refine ⟨.inl, fun h => h.elim id fun hlibrary => ⟨other, hother, ?_⟩⟩
    rw [sameName_iff] at hsame hlibrary ⊢
    exact hsame.trans hlibrary
  · simp [IsAmong]

theorem isAmong_addLibraries :
    IsAmong name (addLibraries libraries names) ↔ IsAmong name libraries ∨ IsAmong name names := by
  unfold addLibraries
  induction names generalizing libraries with
  | nil => simp [IsAmong]
  | cons library rest ih =>
    rw [foldl_cons, ih, isAmong_addLibrary, or_assoc]
    simp [IsAmong]

end IsAmong

/-! Components are looked up by their names, whatever the letter case. -/

section Dependencies

variable {components : List Component} {c d : Component} {name : String}

theorem component?_congr {first second : String} (h : sameName first second = true) :
    component? components first = component? components second := by
  have hsame : Text.lower first = Text.lower second := sameName_iff.mp h
  simp only [component?, sameName, hsame]

theorem sameName_of_component? (h : component? components name = some c) :
    sameName c.name name = true := by
  simpa using find?_some h

/-- One component depends on another by itself: it lists the other's name. -/
def DependsOn (components : List Component) (c d : Component) : Prop :=
  ∃ name ∈ c.dependencies, component? components name = some d

/-- The components that the programs of a configuration stand for. -/
def IsProgramOf (components : List Component) (configuration : Configuration) (c : Component) : Prop :=
  ∃ name ∈ configuration.programNames, component? components name = some c

/-- A library is needed through a chain of dependencies that starts at a program. -/
def Needs (components : List Component) (configuration : Configuration) (d : Component) : Prop :=
  ∃ c, IsProgramOf components configuration c ∧ Relation.TransGen (DependsOn components) c d

/-- A library is needed by a program itself. -/
def NeedsDirectly (components : List Component) (configuration : Configuration) (d : Component) :
    Prop :=
  ∃ c, IsProgramOf components configuration c ∧ DependsOn components c d

variable {configuration : Configuration}

theorem NeedsDirectly.needs (h : NeedsDirectly components configuration d) :
    Needs components configuration d :=
  h.imp fun _ hc => ⟨hc.1, .single hc.2⟩

/-- What is needed is found under its own name. -/
theorem Needs.component?_eq (h : Needs components configuration d) :
    component? components d.name = some d := by
  obtain ⟨c, -, hchain⟩ := h
  have hlast : ∃ b, DependsOn components b d := by
    cases hchain with
    | single h => exact ⟨_, h⟩
    | tail _ h => exact ⟨_, h⟩
  obtain ⟨_, name, -, hfound⟩ := hlast
  rw [component?_congr (sameName_of_component? hfound), hfound]

theorem mem_librariesOf {program : String} :
    name ∈ librariesOf components program ↔ ∃ c, component? components program = some c ∧
      name ∈ c.dependencies ∧ ∃ d, component? components name = some d ∧ d.kind ≠ programKind := by
  rw [librariesOf]
  split
  · rename_i hnone
    simp [hnone]
  · rename_i found hfound
    simp [hfound, mem_filter, Option.any_eq_true]

/-- The libraries of the programs of a configuration, by the names they are listed under. -/
theorem isAmong_librariesOf :
    (∃ program ∈ configuration.programNames, IsAmong name (librariesOf components program)) ↔
      ∃ d, component? components name = some d ∧ d.kind ≠ programKind ∧
        NeedsDirectly components configuration d := by
  constructor
  · rintro ⟨program, hprogram, other, hother, hsame⟩
    obtain ⟨c, hc, hdependency, d, hd, hkind⟩ := mem_librariesOf.mp hother
    exact ⟨d, component?_congr hsame ▸ hd, hkind, c, ⟨program, hprogram, hc⟩, other, hdependency, hd⟩
  · rintro ⟨d, hd, hkind, c, ⟨program, hprogram, hc⟩, other, hdependency, hother⟩
    refine ⟨program, hprogram, other, mem_librariesOf.mpr ⟨c, hc, hdependency, d, hother, hkind⟩, ?_⟩
    have hfirst := sameName_iff.mp (sameName_of_component? hother)
    have hsecond := sameName_iff.mp (sameName_of_component? hd)
    exact sameName_iff.mpr (hfirst.symm.trans hsecond)

end Dependencies

section Stations

variable {components : List Component} {configurations : List Configuration} {st : Station}
  {c : Configuration} {name : String}

/-- A station runs what its configuration gives it, under the assignment that it stands in. -/
theorem mem_stations : st ∈ stations components configurations ↔
    ∃ a ∈ assignments, ∃ id ∈ a.stations, st = station components configurations a.configuration id := by
  simp only [stations, mem_flatMap, mem_map, eq_comm]

theorem station_configuration (conf id : String) :
    (station components configurations conf id).configuration = conf := by
  unfold station
  split <;> rfl

theorem station_id (conf id : String) : (station components configurations conf id).id = id := by
  unfold station
  split <;> rfl

theorem isAmong_programs (h : st ∈ stations components configurations)
    (hconf : configuration? configurations st.configuration = some c) :
    IsAmong name st.programs ↔ IsAmong name c.programNames := by
  obtain ⟨a, -, id, -, rfl⟩ := mem_stations.mp h
  rw [station_configuration] at hconf
  simp [station, hconf]

theorem isAmong_libraries (h : st ∈ stations components configurations)
    (hconf : configuration? configurations st.configuration = some c) :
    IsAmong name st.libraries ↔ IsAmong name c.libraryNames ∨
      ∃ program ∈ c.programNames, IsAmong name (librariesOf components program) := by
  obtain ⟨a, -, id, -, rfl⟩ := mem_stations.mp h
  rw [station_configuration] at hconf
  simp [station, hconf, isAmong_addLibraries, isAmong_flatMap]

/-- Without a configuration a station runs nothing. -/
theorem not_isAmong_of_none (h : st ∈ stations components configurations)
    (hconf : configuration? configurations st.configuration = none) :
    ¬ (IsAmong name st.programs ∨ IsAmong name st.libraries) := by
  obtain ⟨a, -, id, -, rfl⟩ := mem_stations.mp h
  rw [station_configuration] at hconf
  simp [station, hconf, IsAmong]

/-- A station whose configuration is known lists the libraries of the configuration. Of the
libraries that its programs need through chains of dependencies it lists, besides these, just those
that a program depends on by itself, and it lists no others. -/
theorem libraries_listed_iff (h : st ∈ stations components configurations)
    (hconf : configuration? configurations st.configuration = some c) :
    (∀ library ∈ c.libraryNames, IsAmong library st.libraries) ∧
      (∀ d, Needs components c d → d.kind ≠ programKind →
        (IsAmong d.name st.libraries ↔
          IsAmong d.name c.libraryNames ∨ NeedsDirectly components c d)) ∧
      ∀ library ∈ st.libraries, IsAmong library c.libraryNames ∨
        ∃ d, component? components library = some d ∧ d.kind ≠ programKind ∧
          NeedsDirectly components c d := by
  refine ⟨fun library hlibrary => ?_, fun d hneeds hkind => ?_, fun library hlibrary => ?_⟩
  · exact (isAmong_libraries h hconf).mpr (.inl ⟨library, hlibrary, beq_self_eq_true _⟩)
  · rw [isAmong_libraries h hconf, isAmong_librariesOf, hneeds.component?_eq]
    simp [hkind]
  · rw [← isAmong_librariesOf, ← isAmong_libraries h hconf]
    exact ⟨library, hlibrary, beq_self_eq_true _⟩

end Stations

/-! A press whose program uses valves, which use signals. -/

def valves : Component := ⟨"Valves", "Project Library", "N/A", "N/A", "N/A", ["Signals"]⟩

def signals : Component := ⟨"Signals", "NNE Library", "N/A", "N/A", "N/A", []⟩

def pressPlant : List Component :=
  [⟨"Press", programKind, noAddressFile, noController, noProgramFile, ["Valves"]⟩, valves, signals]

/-- The configuration of a panel that runs the press, with libraries of its own. -/
def pressConfiguration (libraries : List String) : Configuration :=
  ⟨"KaGC_LOP04", "2.0", "2004-05-06", [⟨"Press", "unitlib", true⟩],
    libraries.map fun name => ⟨name, "projectlib"⟩⟩

/-- The panel. -/
def pressStation (libraries : List String) : Station :=
  station pressPlant [pressConfiguration libraries] "KaGC_LOP04" "LOP04"

theorem pressStation_mem (libraries : List String) :
    pressStation libraries ∈ stations pressPlant [pressConfiguration libraries] :=
  mem_stations.mpr ⟨⟨"KaGC_LOP04", ["LOP04"]⟩, by decide, "LOP04", by decide, rfl⟩

theorem pressStation_configured (libraries : List String) :
    configuration? [pressConfiguration libraries] (pressStation libraries).configuration =
      some (pressConfiguration libraries) := by
  rw [pressStation, station_configuration]
  simp [configuration?, pressConfiguration, sameName]

theorem press_needs_valves (libraries : List String) :
    NeedsDirectly pressPlant (pressConfiguration libraries) valves :=
  ⟨_, ⟨"Press", .head _, rfl⟩, "Valves", .head _, rfl⟩

theorem press_needs_signals (libraries : List String) :
    Needs pressPlant (pressConfiguration libraries) signals :=
  ⟨_, ⟨"Press", .head _, rfl⟩,
    .tail (.single ⟨"Valves", .head _, rfl⟩) ⟨"Signals", .head _, rfl⟩⟩

/-- The valves are listed, and the signals too if the configuration names them. -/
theorem press_libraries_listed :
    IsAmong "Valves" (pressStation ["SIGNALS"]).libraries ∧
      IsAmong "Signals" (pressStation ["SIGNALS"]).libraries := by
  have hlisted := (libraries_listed_iff (pressStation_mem ["SIGNALS"])
    (pressStation_configured ["SIGNALS"])).2.1
  refine ⟨(hlisted valves (press_needs_valves _).needs (by decide)).mpr (.inr (press_needs_valves _)),
    (hlisted signals (press_needs_signals _) (by decide)).mpr (.inl ?_)⟩
  exact ⟨"SIGNALS", .head _, by decide⟩

/-- Else the signals are not listed, although the press needs them. -/
theorem press_signals_not_listed :
    pressStation [] ∈ stations pressPlant [pressConfiguration []] ∧
      configuration? [pressConfiguration []] (pressStation []).configuration =
        some (pressConfiguration []) ∧
      Needs pressPlant (pressConfiguration []) signals ∧ signals.kind ≠ programKind ∧
      ¬ IsAmong signals.name (pressStation []).libraries := by
  refine ⟨pressStation_mem [], pressStation_configured [], press_needs_signals [], by decide, ?_⟩
  rw [isAmong_libraries (pressStation_mem []) (pressStation_configured [])]
  rintro (⟨_, hnone, -⟩ | ⟨program, hprogram, other, hother, hsame⟩)
  · cases hnone
  · obtain rfl : program = "Press" := mem_singleton.mp hprogram
    obtain rfl : other = "Valves" := mem_singleton.mp hother
    exact absurd hsame (by decide)

end SattLine.Plant
