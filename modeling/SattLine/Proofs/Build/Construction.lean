import SattLine.Proofs.Build.Row

/-!
Looking constructions up. Main statements: what a rule constructs is what its entry in the
table says, and a rule without an entry keeps its tree.
-/

namespace SattLine.Build

open Grammar (Spelled)

/-- The labels of the other nodes. -/
def treeLabels : List String := [
  "syntax_version_line", "original_file_date_line", "program_date_line", "header_lines",
  "expression", "term", "coord_tail", "clip_values", "clip_value", "moduledef_opts",
  "moduledef_option", "common_properties", "format_string", "value_fraction", "connection_node",
  "alignment", "color_properties", "outline_colour", "fill_colour", "assign_colour",
  "colour_assignments", "colour_style", "width", "polygon_type", "interact_item", "procedure_args",
  "proc_atom", "combutproc_tail", "interact_type_simple", "interact_body_seq", "interact_body",
  "value_or_invar"]

set_option maxRecDepth 10000 in
theorem nodup_labels : (constructions.map Prod.fst ++ treeLabels).Nodup := by
  apply Spelled.nodup
  case h =>
    repeat' apply Spelled.cons
    exact Spelled.nil
  case hcodes => decide +kernel

theorem constructed_of_mem {label : String} {f : List Value → Result Value}
    (h : (label, f) ∈ constructions) (items : List Value) :
    constructed label items = f items := by
  have hfound := (lookup_eq_some_iff_mem nodup_labels.of_append_left).mpr h
  rw [constructed, rule?, hfound]
  rfl

/-- A rule without an entry keeps its tree. -/
theorem constructed_of_treeLabel {label : String} (h : label ∈ treeLabels) (items : List Value) :
    constructed label items = .ok (.tree label true items) := by
  have hfound : constructions.lookup label = none := by
    refine List.lookup_eq_none_iff.mpr fun entry hentry => bne_iff_ne.mpr ?_
    rintro rfl
    exact (List.nodup_append.mp nodup_labels).2.2 _ (List.mem_map_of_mem hentry) _ h rfl
  rw [constructed, rule?, hfound]
  rfl

end SattLine.Build
