import Mathlib.Data.List.Pairwise
import SattLine.Proofs.Grammar.Names
import SattLine.Proofs.Plant.Stations
import SattLine.Proofs.Sorting
import SattLine.Proofs.Text.Joined
import SattLine.Workbook.Plant

/-!
The sheet of impacts beside the stations. The sheet knows what configurations name, a station also
what its programs depend on. Main statement: which components the sheet has for a station and which
the station runs, and when the two agree.
-/

namespace SattLine.Plant

open List
open Grammar (Spelled)
open Text (sameName)
open Workbook (Cell Sheet impactCells impactSheet)

/-- The rows of the hidden table: a heading, and the components with their stations. -/
def lookupRows (impacts : List Impact) : List (String × String) :=
  ("Component_Lookup", "Workstations") :: impacts.map fun i => (i.name, ", ".intercalate i.stations)

/-- The names in a cell. -/
def namesIn (text : String) : List String :=
  (Text.splitAtChar ',' text).map Text.trim

/-- The hidden table of a sheet has a station in the row of a component, whatever the letter case of
the component. -/
def InLookup (sheet : Sheet) (component id : String) : Prop :=
  ∃ row shown text, (⟨row, 10, .text shown⟩ : Cell) ∈ sheet.cells ∧
    (⟨row, 11, .text text⟩ : Cell) ∈ sheet.cells ∧ sameName shown component = true ∧
      id ∈ namesIn text

section Lookup

variable {configurations : List Configuration} {row column : Nat} {name id text : String}

/-- Only the hidden table reaches its columns. -/
theorem mem_impactSheet (hcolumn : 5 < column) :
    (⟨row, column, .text text⟩ : Cell) ∈ (impactSheet configurations).cells ↔
      ∃ i pair, (lookupRows (impacts configurations))[i]? = some pair ∧ row = i + 1 ∧
        (column = 10 ∧ text = pair.1 ∨ column = 11 ∧ text = pair.2) := by
  have hcells : (impactSheet configurations).cells = (impactSheet []).cells.take 26 ++
      impactCells (impacts configurations) := rfl
  have hfront : ∀ cell ∈ (impactSheet []).cells.take 26, cell.column ≤ 5 := by decide
  have hother : (⟨row, column, .text text⟩ : Cell) ∉ (impactSheet []).cells.take 26 :=
    fun hmem => (hfront _ hmem).not_gt hcolumn
  simp only [hcells, mem_append, hother, false_or, impactCells, mem_flatten, mem_mapIdx, lookupRows]
  constructor
  · rintro ⟨_, ⟨i, hi, rfl⟩, hcell⟩
    refine ⟨i, _, getElem?_eq_getElem hi, ?_⟩
    simpa [and_or_left] using hcell
  · rintro ⟨i, pair, hpair, hrow, htext⟩
    obtain ⟨hi, rfl⟩ := List.getElem?_eq_some_iff.mp hpair
    refine ⟨_, ⟨i, hi, rfl⟩, ?_⟩
    simpa [and_or_left] using And.intro hrow htext

theorem inLookup_iff : InLookup (impactSheet configurations) name id ↔
    ∃ pair ∈ lookupRows (impacts configurations), sameName pair.1 name = true ∧
      id ∈ namesIn pair.2 := by
  have hrow : ∀ {row column text}, 5 < column → _ := @mem_impactSheet configurations
  simp only [InLookup, hrow (by decide : 5 < 10), hrow (by decide : 5 < 11)]
  constructor
  · rintro ⟨_, shown, text, ⟨i, pair, hpair, rfl, hshown⟩, ⟨j, other, hother, hrow, htext⟩, h⟩
    obtain rfl : i = j := by omega
    cases hpair.symm.trans hother
    obtain rfl : shown = pair.1 := by simpa using hshown
    obtain rfl : text = pair.2 := by simpa using htext
    exact ⟨pair, mem_of_getElem? hpair, h⟩
  · rintro ⟨pair, hpair, h⟩
    obtain ⟨i, hi⟩ := mem_iff_getElem?.mp hpair
    exact ⟨i + 1, pair.1, pair.2, ⟨i, pair, hi, rfl, by simp⟩, ⟨i, pair, hi, rfl, by simp⟩, h⟩

end Lookup

/-- The names of stations can be told apart in a cell, and from its heading. -/
theorem station_names : ∀ a ∈ assignments, ∀ id ∈ a.stations,
    (',' ∉ id.toList ∧ Text.trim id = id) ∧ id ≠ "" ∧ id ≠ "Workstations" := by
  have hall : ∀ id ∈ assignments.flatMap Assignment.stations,
      (!id.toList.contains ',' && (Text.trimStart (Text.trimStart id.toList).reverse).reverse ==
        id.toList && !id.toList.isEmpty && id.toList != "Workstations".toList) = true := by
    apply Spelled.forall_mem (p := fun chars => !chars.contains ',' &&
      (Text.trimStart (Text.trimStart chars).reverse).reverse == chars && !chars.isEmpty &&
        chars != "Workstations".toList)
    case h =>
      repeat' apply Spelled.cons
      exact Spelled.nil
    case hp => decide +kernel
  intro a ha id hid
  have h := hall id (mem_flatMap.mpr ⟨a, ha, hid⟩)
  simp only [Bool.and_eq_true, Bool.not_eq_true', contains_eq_mem, decide_eq_false_iff_not,
    beq_iff_eq, bne_iff_ne, isEmpty_eq_false_iff, ne_eq] at h
  obtain ⟨⟨⟨hcomma, htrim⟩, hempty⟩, hheading⟩ := h
  refine ⟨⟨hcomma, ?_⟩, ?_, ?_⟩
  · rw [Text.trim, htrim, String.ofList_toList]
  · rintro rfl
    exact hempty rfl
  · rintro rfl
    exact hheading rfl

theorem nodup_stations : (assignments.flatMap Assignment.stations).Nodup := by
  apply Spelled.nodup
  case h =>
    repeat' apply Spelled.cons
    exact Spelled.nil
  case hcodes => decide +kernel

/-- No station is assigned twice. -/
theorem assignment_unique {a b : Assignment} (ha : a ∈ assignments) (hb : b ∈ assignments)
    {id : String} (hid : id ∈ a.stations) (hother : id ∈ b.stations) : a = b := by
  by_contra hne
  have : Std.Symm (Function.onFun List.Disjoint Assignment.stations) := ⟨fun _ _ h _ hb ha => h ha hb⟩
  exact (nodup_flatMap.mp nodup_stations).2.forall ha hb hne hid hother

/-- A configuration names a component, whatever its letter case. -/
def Configuration.Names (c : Configuration) (name : String) : Prop :=
  IsAmong name (c.programNames ++ c.libraryNames)

section Impacts

variable {components : List Component} {configurations : List Configuration} {st : Station}
  {name id : String}

theorem mem_mentions {m : Mention} : m ∈ mentions configurations ↔
    ∃ a ∈ assignments, ∃ c ∈ configurations, sameName c.name a.configuration = true ∧
      ∃ name ∈ c.programNames ++ c.libraryNames, m = ⟨name, a.stations⟩ := by
  simp only [mentions, mem_flatMap, mem_filter, mem_map, and_assoc, eq_comm]

/-- The impact on a name has the stations of all mentions of it. -/
theorem mem_impacts : (∃ i ∈ impacts configurations, sameName i.name name = true ∧ id ∈ i.stations) ↔
    ∃ m ∈ mentions configurations, sameName m.name name = true ∧ id ∈ m.stations := by
  have hshown : ∀ m ∈ mentions configurations, ∃ last,
      ((mentions configurations).filter fun n => Text.lower n.name == Text.lower m.name).getLast? =
        some last ∧ Text.lower last.name = Text.lower m.name := by
    intro m hm
    have hne : (mentions configurations).filter (fun n => Text.lower n.name == Text.lower m.name) ≠ [] :=
      ne_nil_of_mem (mem_filter.mpr ⟨hm, beq_self_eq_true _⟩)
    exact ⟨_, getLast?_eq_some_getLast hne, beq_iff_eq.mp (mem_filter.mp (getLast_mem hne)).2⟩
  simp only [impacts, mem_map, Text.mem_sortedSet, sameName_iff]
  constructor
  · rintro ⟨_, ⟨_, ⟨n, hn, rfl⟩, rfl⟩, hname, hid⟩
    obtain ⟨last, hlast, hkey⟩ := hshown n hn
    obtain ⟨m, hm, hid⟩ := mem_flatMap.mp (Text.mem_sortedSet.mp hid)
    obtain ⟨hm, hsame⟩ := mem_filter.mp hm
    rw [hlast] at hname
    exact ⟨m, hm, (beq_iff_eq.mp hsame).trans (hkey.symm.trans hname), hid⟩
  · rintro ⟨m, hm, hname, hid⟩
    obtain ⟨last, hlast, hkey⟩ := hshown m hm
    refine ⟨_, ⟨_, ⟨m, hm, rfl⟩, rfl⟩, ?_, ?_⟩
    · rw [hlast]
      exact hkey.trans hname
    · exact Text.mem_sortedSet.mpr
        (mem_flatMap.mpr ⟨m, mem_filter.mpr ⟨hm, beq_self_eq_true _⟩, hid⟩)

/-- What is in the cell of an impact are the stations that it is for. -/
theorem mem_cell {i : Impact} (hi : i ∈ impacts configurations) (hid : id ≠ "") :
    id ∈ namesIn (", ".intercalate i.stations) ↔ id ∈ i.stations := by
  have hplain : ∀ other ∈ i.stations, Text.IsPlain other := by
    intro other hother
    obtain ⟨m, hm, -, hmentioned⟩ := mem_impacts.mp ⟨i, hi, beq_self_eq_true _, hother⟩
    obtain ⟨a, ha, _, -, -, _, -, rfl⟩ := mem_mentions.mp hm
    obtain ⟨hplain, -⟩ := station_names a ha other hmentioned
    exact ⟨hplain.1, hplain.2⟩
  cases hstations : i.stations with
  | nil =>
    rw [show namesIn (", ".intercalate []) = [""] by decide]
    simpa using hid
  | cons first rest => rw [namesIn, Text.splitAtChar_joined (by simp) (hstations ▸ hplain)]

/-- The sheet has a station for what the configurations of its name name. -/
theorem inLookup_station (h : st ∈ stations components configurations) :
    InLookup (impactSheet configurations) name st.id ↔
      ∃ c ∈ configurations, sameName c.name st.configuration = true ∧ c.Names name := by
  obtain ⟨a, ha, id, hid, rfl⟩ := mem_stations.mp h
  rw [station_id, station_configuration, inLookup_iff]
  obtain ⟨-, hempty, hheading⟩ := station_names a ha id hid
  have hhead : id ∉ namesIn "Workstations" := by
    rw [show namesIn "Workstations" = ["Workstations"] by decide]
    simpa using hheading
  simp only [lookupRows, mem_cons, exists_eq_or_imp, hhead, and_false, false_or, mem_map,
    exists_exists_and_eq_and]
  constructor
  · rintro ⟨i, hi, hname, hmem⟩
    obtain ⟨m, hm, hname, hmem⟩ := mem_impacts.mp ⟨i, hi, hname, (mem_cell hi hempty).mp hmem⟩
    obtain ⟨b, hb, c, hc, hconf, other, hother, rfl⟩ := mem_mentions.mp hm
    obtain rfl := assignment_unique ha hb hid hmem
    exact ⟨c, hc, hconf, other, hother, hname⟩
  · rintro ⟨c, hc, hconf, other, hother, hname⟩
    obtain ⟨i, hi, hname, hmem⟩ := mem_impacts.mpr
      ⟨⟨other, a.stations⟩, mem_mentions.mpr ⟨a, ha, c, hc, hconf, other, hother, rfl⟩, hname, hid⟩
    exact ⟨i, hi, hname, (mem_cell hi hempty).mpr hmem⟩

theorem configuration?_eq_some_iff (h : (configurations.map fun c => Text.lower c.name).Nodup)
    {c : Configuration} : configuration? configurations name = some c ↔
      c ∈ configurations ∧ sameName c.name name = true := by
  have hnodup : (configurations.reverse.map fun c => Text.lower c.name).Nodup := by
    rwa [map_reverse, nodup_reverse]
  rw [sameName_iff, ← mem_reverse]
  exact find?_key_eq_some_iff hnodup

/-- A station runs a component, whatever its letter case. -/
def Station.Runs (st : Station) (name : String) : Prop :=
  IsAmong name st.programs ∨ IsAmong name st.libraries

/-- The sheet has a station for what some configuration of the station's name names. The station
runs what the last of them names, and the libraries that its programs depend on. If there is but
one, the two agree on a component exactly if it is no such library or is named as well. -/
theorem lookup_agrees_iff (h : st ∈ stations components configurations) :
    (InLookup (impactSheet configurations) name st.id ↔
      ∃ c ∈ configurations, sameName c.name st.configuration = true ∧ c.Names name) ∧
    (st.Runs name ↔ ∃ c, configuration? configurations st.configuration = some c ∧
      (c.Names name ∨ ∃ program ∈ c.programNames, IsAmong name (librariesOf components program))) ∧
    ((configurations.map fun c => Text.lower c.name).Nodup →
      ((InLookup (impactSheet configurations) name st.id ↔ st.Runs name) ↔
        ∀ c, configuration? configurations st.configuration = some c →
          (∃ program ∈ c.programNames, IsAmong name (librariesOf components program)) →
            c.Names name)) := by
  have hruns : st.Runs name ↔ ∃ c, configuration? configurations st.configuration = some c ∧
      (c.Names name ∨ ∃ program ∈ c.programNames, IsAmong name (librariesOf components program)) := by
    cases hconf : configuration? configurations st.configuration with
    | none => simpa [Station.Runs] using @not_isAmong_of_none _ _ _ name h hconf
    | some c =>
      rw [Station.Runs, isAmong_programs h hconf, isAmong_libraries h hconf, ← or_assoc, ← isAmong_append]
      simp [Configuration.Names]
  refine ⟨inLookup_station h, hruns, fun hnodup => ?_⟩
  rw [inLookup_station h, hruns]
  simp only [← and_assoc, ← configuration?_eq_some_iff hnodup]
  cases configuration? configurations st.configuration with
  | none => simp
  | some c => simp

end Impacts

/-- The lookup has the valves of the press if the configuration names them. -/
theorem press_valves_looked_up :
    InLookup (impactSheet [pressConfiguration ["VALVES"]]) "Valves" (pressStation ["VALVES"]).id ∧
      (pressStation ["VALVES"]).Runs "Valves" := by
  obtain ⟨hlookup, -, hagree⟩ := @lookup_agrees_iff _ _ _ "Valves" (pressStation_mem ["VALVES"])
  have hnamed : (pressConfiguration ["VALVES"]).Names "Valves" := ⟨"VALVES", by decide, by decide⟩
  have hin := hlookup.mpr ⟨_, .head _, by decide, hnamed⟩
  refine ⟨hin, ((hagree (nodup_singleton _)).mpr fun c hc _ => ?_).mp hin⟩
  rw [pressStation_configured] at hc
  cases hc
  exact hnamed

/-- Otherwise the press uses them and the lookup does not have them. -/
theorem press_valves_not_looked_up :
    pressStation [] ∈ stations pressPlant [pressConfiguration []] ∧
      (pressStation []).Runs "Valves" ∧
      ¬ InLookup (impactSheet [pressConfiguration []]) "Valves" (pressStation []).id := by
  have hmem := pressStation_mem []
  refine ⟨hmem, .inr ?_, ?_⟩
  · rw [isAmong_libraries hmem (pressStation_configured [])]
    exact .inr ⟨"Press", .head _, "Valves", by decide, by decide⟩
  · rw [inLookup_station hmem]
    rintro ⟨c, hc, -, other, hother, hsame⟩
    obtain rfl := mem_singleton.mp hc
    obtain rfl : other = "Press" := mem_singleton.mp hother
    exact absurd hsame (by decide)

end SattLine.Plant
