import SattLine.Program.Scope
import SattLine.Proofs.Lists
import SattLine.Proofs.Project.Definitions

/-!
Which module type a name means in a merged project. Definitions are kept by their exact names and
looked up without regard to case, and of several spellings of a name the one counts that turns up
last for the first time. Main statement: a definition of the root counts if the root uses that
spelling too, and hence if nobody spells the name otherwise than the root; with a third spelling a
definition of another program may shadow that of the root.
-/

namespace SattLine.Project

open List

namespace Graph

/-- The spelling of a name that turns up last for the first time among the module types. -/
def newestSpelling? (graph : Graph) (name : String) : Option String :=
  ((graph.allTypes.map TypeDef.name).eraseDups.filter (Text.lower · == Text.lower name)).getLast?

variable {graph : Graph}

theorem type?_merge (graph : Graph) (p : Picture) (name : String) :
    (graph.merge p).type? name =
      (graph.types.filter (TypeDef.key · == Text.lower name)).getLast? :=
  List.getLast?_filter.symm

theorem map_type?_merge (h : LastCounts TypeDef.name graph.types graph.allTypes) (p : Picture)
    (name : String) : ((graph.merge p).type? name).map TypeDef.name = graph.newestSpelling? name := by
  rw [type?_merge, newestSpelling?, ← h.names, filter_map, List.getLast?_map]
  rfl

/-- The type that a name means is the last one of its exact name. -/
theorem getLast?_of_type?_merge (h : LastCounts TypeDef.name graph.types graph.allTypes)
    {p : Picture} {name : String} {type : TypeDef} (htype : (graph.merge p).type? name = some type) :
    (graph.allTypes.filter (TypeDef.name · == type.name)).getLast? = some type := by
  have hmem : type ∈ graph.types := by
    rw [type?_merge] at htype
    exact (mem_filter.mp (mem_of_getLast? htype)).1
  have hnodup : (graph.types.map TypeDef.name).Nodup := by
    rw [h.names]
    exact nodup_eraseDups _
  rw [← h.last]
  exact (find?_key_eq_some_iff hnodup).mpr ⟨hmem, rfl⟩

theorem exists_type?_merge (h : LastCounts TypeDef.name graph.types graph.allTypes) (p : Picture)
    {name : String} (hname : Text.lower name ∈ graph.allTypes.map TypeDef.key) :
    ∃ type, (graph.merge p).type? name = some type ∧ type ∈ graph.allTypes ∧
      type.key = Text.lower name := by
  obtain ⟨declared, hdeclared, hkey⟩ := mem_map.mp hname
  have hin : declared.name ∈ graph.types.map TypeDef.name := by
    rw [h.names, mem_eraseDups]
    exact mem_map_of_mem hdeclared
  obtain ⟨other, hother, hsame⟩ := mem_map.mp hin
  have hotherKey : other.key = Text.lower name := by
    rw [← hkey, TypeDef.key, hsame, TypeDef.key]
  have hsome : ((graph.merge p).type? name).isSome := by
    rw [type?_merge, List.getLast?_isSome]
    exact ne_nil_of_mem (mem_filter.mpr ⟨hother, by simpa using hotherKey⟩)
  obtain ⟨type, htype⟩ := Option.isSome_iff_exists.mp hsome
  have hlast := mem_of_getLast? (getLast?_of_type?_merge h htype)
  refine ⟨type, htype, (mem_filter.mp hlast).1, ?_⟩
  rw [type?_merge] at htype
  exact eq_of_beq (mem_filter.mp (mem_of_getLast? htype)).2

end Graph

namespace Loader

variable {loader : Loader} {store : Store} {root : String} {strict : Bool} {graph : Graph}
  {marks : Marks} {history : History} {order : List String}

namespace LoadedInOrder

/-- The type that a name means is one of the root if the root uses its spelling. -/
theorem mem_root_iff (h : loader.LoadedInOrder store root graph order) {p : Picture}
    (hp : graph.find? root = some p) {name : String} {type : TypeDef}
    (htype : (graph.merge p).type? name = some type) :
    type ∈ p.types ↔ type.name ∈ p.types.map TypeDef.name := by
  refine ⟨fun hmem => mem_map_of_mem hmem, fun hmem => ?_⟩
  obtain ⟨before, hall⟩ := h.allTypes_root hp
  have hcounts := h.types_lastCount
  have hlast := Graph.getLast?_of_type?_merge hcounts htype
  rw [hall] at hcounts
  rw [← h.types_lastCount.last, hcounts.find?_append _ hmem] at hlast
  exact (mem_filter.mp (mem_of_getLast? hlast)).1

end LoadedInOrder

/-- In a merged project a name means the last definition of its newest spelling. Where the root
declares the name, that is a definition of the root exactly if the root uses this spelling, as it
does if all spellings of the name are among those of the root. -/
theorem resolve_types_by_spelling
    (h : loader.resolve store {} root strict = (.ok (graph, marks), history)) :
    (∀ p name, ((graph.merge p).type? name).map TypeDef.name = graph.newestSpelling? name ∧
      ∀ type, (graph.merge p).type? name = some type →
        (graph.allTypes.filter (TypeDef.name · == type.name)).getLast? = some type) ∧
    (∀ p, graph.find? root = some p → ∀ name, Text.lower name ∈ p.types.map TypeDef.key →
      ∃ type, (graph.merge p).type? name = some type ∧
        (type ∈ p.types ↔ type.name ∈ p.types.map TypeDef.name)) ∧
    ∀ p, graph.find? root = some p → ∀ name, Text.lower name ∈ p.types.map TypeDef.key →
      (∀ type ∈ graph.allTypes, type.key = Text.lower name →
        type.name ∈ p.types.map TypeDef.name) →
      ∃ type ∈ p.types, (graph.merge p).type? name = some type := by
  obtain ⟨order, hloaded⟩ := exists_loadedInOrder h
  have hcounts := hloaded.types_lastCount
  have hmeant : ∀ p, graph.find? root = some p → ∀ name,
      Text.lower name ∈ p.types.map TypeDef.key →
        ∃ type, (graph.merge p).type? name = some type ∧ type ∈ graph.allTypes ∧
          type.key = Text.lower name := by
    intro p hp name hname
    obtain ⟨before, hall⟩ := hloaded.allTypes_root hp
    apply Graph.exists_type?_merge hcounts p
    rw [hall, map_append]
    exact mem_append_right _ hname
  refine ⟨fun p name => ⟨Graph.map_type?_merge hcounts p name, fun type htype =>
    Graph.getLast?_of_type?_merge hcounts htype⟩, ?_, ?_⟩
  · intro p hp name hname
    obtain ⟨type, htype, _, _⟩ := hmeant p hp name hname
    exact ⟨type, htype, hloaded.mem_root_iff hp htype⟩
  · intro p hp name hname hspelled
    obtain ⟨type, htype, hmem, hkey⟩ := hmeant p hp name hname
    exact ⟨type, (hloaded.mem_root_iff hp htype).mpr (hspelled type hmem hkey), htype⟩

end Loader

theorem map_key_eq (types : List TypeDef) :
    types.map TypeDef.key = (types.map TypeDef.name).map Text.lower := by
  simp [TypeDef.key]

/-- Nobody but the root declares `Valve`, so the root's definition is meant, in any spelling. -/
theorem pump_types_by_spelling : ∃ graph marks history p,
    pumpLoader.resolve pumpStore {} "Root" false = (.ok (graph, marks), history) ∧
      graph.find? "Root" = some p ∧ dated p.types = [("Pump", some 3), ("Valve", some 3)] ∧
        ∃ type ∈ p.types, (graph.merge p).type? "VALVE" = some type := by
  obtain ⟨graph, marks, history, p, hresolved, hp, -, -, htypes, hown, -⟩ := pump_resolved
  refine ⟨graph, marks, history, p, hresolved, hp, hown, ?_⟩
  refine (Loader.resolve_types_by_spelling hresolved).2.2 p hp "VALVE" ?_ fun type htype hkey => ?_
  · rw [map_key_eq, map_name_eq, hown]
    decide
  · have hmem : type.name ∈ ["Pump", "PUMP", "Pump", "Valve"] := by
      simpa [map_name_eq, htypes] using mem_map_of_mem (f := TypeDef.name) htype
    have hvalve : ∀ name ∈ ["Pump", "PUMP", "Pump", "Valve"], Text.lower name = Text.lower "VALVE" →
        name ∈ ["Pump", "Valve"] := by
      decide
    simpa [map_name_eq, hown] using hvalve _ hmem hkey

/-- The root declares `Pump` as well, but the name means the `PUMP` of a library. -/
theorem pump_of_root_shadowed : ∃ graph marks history p type,
    pumpLoader.resolve pumpStore {} "Root" false = (.ok (graph, marks), history) ∧
      graph.find? "Root" = some p ∧ Text.lower "Pump" ∈ p.types.map TypeDef.key ∧
        (graph.merge p).type? "Pump" = some type ∧ type.name = "PUMP" ∧ type ∉ p.types := by
  obtain ⟨graph, marks, history, p, hresolved, hp, -, -, htypes, hown, -⟩ := pump_resolved
  obtain ⟨order, hloaded⟩ := Loader.exists_loadedInOrder hresolved
  have hspelling : graph.newestSpelling? "Pump" = some "PUMP" := by
    rw [Graph.newestSpelling?, map_name_eq, htypes]
    decide +kernel
  obtain ⟨type, htype, hname⟩ := Option.map_eq_some_iff.mp
    ((Graph.map_type?_merge hloaded.types_lastCount p "Pump").trans hspelling)
  refine ⟨graph, marks, history, p, type, hresolved, hp, ?_, htype, hname, fun hmem => ?_⟩
  · rw [map_key_eq, map_name_eq, hown]
    decide
  · have hnamed := mem_map_of_mem (f := TypeDef.name) hmem
    simp [map_name_eq, hown, hname] at hnamed

end SattLine.Project
