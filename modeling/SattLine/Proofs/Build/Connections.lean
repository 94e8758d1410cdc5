import SattLine.Proofs.Build.Program

/-!
Parameter mappings as they are written and as they are built. Main statement: the marks and the
source of a mapping are kept apart, except that a truth value without a mark in front of it is taken
for the mark of a global source.
-/

namespace SattLine.Build

open Syntax (Tree Token IsOf lexemes word variableTree)

/-- A parameter mapping as it is written: the parameter, the marks behind the arrow and the
source. -/
structure Transfer where
  target : Tree
  marks : List Token
  source : Tree
  isTarget : IsOf "variable_name" target
  inOrder : (marks.map Token.kind).Sublist ["GLOBAL_KW", "DURATION_VALUE"]
  isSource : IsOf "value" source ∨ IsOf "variable_name" source

namespace Transfer

def tree (t : Transfer) : Tree :=
  .node "moduletype_par_transfer" (t.target :: t.marks.map .leaf ++ [t.source])

def has (t : Transfer) (kind : String) : Bool :=
  (t.marks.map Token.kind).contains kind

end Transfer

/-- The element of a mapping whose source is a reference or a literal. -/
def mappingOf (kind : String) (isGlobal isDuration : Bool) (target reference literal : Value) : Value :=
  Value.ofFields .parameterMapping [("target", target), ("source_type", .text kind),
    ("is_duration", .bool isDuration), ("is_source_global", .bool isGlobal), ("source", reference),
    ("source_literal", literal)]

section Flags

variable (isGlobal isDuration : Bool) {target source : Value}

/-- What the marks of a mapping leave among the values of its parts. -/
def flagValues : List Value :=
  globalFlag isGlobal ++ if isDuration then [.null] else []

theorem parameterTransfer_reference (htarget : IsReference target) (hsource : IsReference source) :
    parameterTransfer (target :: flagValues isGlobal isDuration ++ [source]) =
      .ok (mappingOf "variable_name" isGlobal isDuration target source .null) := by
  obtain ⟨keys, values, rfl, -⟩ := htarget
  obtain ⟨_, _, rfl, -⟩ := hsource
  cases isGlobal <;> cases isDuration <;> rfl

/-- Behind a mark every literal is a source. -/
theorem parameterTransfer_literal (htarget : IsReference target) (hsource : IsLiteral source)
    (h : isGlobal = true ∨ isDuration = true ∨ ∀ b, source ≠ .bool b) :
    parameterTransfer (target :: flagValues isGlobal isDuration ++ [source]) =
      .ok (mappingOf "value" isGlobal isDuration target .null source) := by
  obtain ⟨keys, values, rfl, -⟩ := htarget
  rcases hsource with ⟨b, rfl⟩ | ⟨n, rfl⟩ | ⟨x, rfl⟩ | ⟨s, rfl⟩
  · cases isGlobal with
    | true => cases isDuration <;> rfl
    | false =>
      cases isDuration with
      | true => rfl
      | false => simp at h
  all_goals cases isGlobal <;> cases isDuration <;> rfl

theorem parameterTransfer_truth (htarget : IsReference target) (b : Bool) :
    parameterTransfer [target, .bool b] = .ok (mappingOf "value" b false target .null .null) := by
  obtain ⟨keys, values, rfl, -⟩ := htarget
  rfl

end Flags

theorem Formed.hasForm {name : String} {tree : Tree} {v : Value} (h : Formed name tree v)
    (hname : name ∈ codeNames) : HasForm name v :=
  (codeSpec_kept.holds h.1 h.2 hname).form

/-- The parts of a tree whose rule has one row, and what is made of them. -/
theorem Formed.only {name : String} {tree : Tree} {v : Value} (h : Formed name tree v)
    {row : List Grammar.Part} {f : List Value → Result Value}
    (hrule : ⟨name, .node name, [row]⟩ ∈ Grammar.rules)
    (hf : (name, f) ∈ ordinaryConstructions) :
    ∃ inner items, tree = .node name inner ∧ Builds Formed row inner items ∧ f items = .ok v := by
  obtain ⟨_, hrow, inner, items, htree, hparts, hmade⟩ := h.parts hrule
  cases List.mem_singleton.mp hrow
  rw [constructed_of_mem (mem_constructions hf)] at hmade
  exact ⟨inner, items, htree, hparts, hmade⟩

section Parts

variable {inner : List Tree} {items : List Value}

theorem Builds.of_either {spec : Spec} {first second : String}
    (h : Builds spec [.oneOf [[.rule first], [.rule second]]] inner items) :
    ∃ tree v, inner = [tree] ∧ items = [v] ∧ (spec first tree v ∨ spec second tree v) := by
  obtain ⟨_, hrow, _, _, _, _, rfl, rfl, hchosen, hnil⟩ := h.of_oneOf
  cases hnil
  rcases List.mem_pair.mp hrow with rfl | rfl
  all_goals
    obtain ⟨tree, v, rfl, rfl, hv⟩ := hchosen.of_lone
  · exact ⟨tree, v, rfl, rfl, .inl hv⟩
  · exact ⟨tree, v, rfl, rfl, .inr hv⟩

theorem Builds.transfer (h : Builds Formed [.rule "variable_name", .mark "__ANON_0",
      .opt [[.token "GLOBAL_KW"]], .opt [[.token "DURATION_VALUE"]],
      .oneOf [[.rule "value"], [.rule "variable_name"]]] inner items) :
    ∃ (t : Transfer) (target source : Value), t.tree = .node "moduletype_par_transfer" inner ∧
      items = target :: flagValues (t.has "GLOBAL_KW") (t.has "DURATION_VALUE") ++ [source] ∧
      Formed "variable_name" t.target target ∧
      (Formed "value" t.source source ∨ Formed "variable_name" t.source source) := by
  obtain ⟨targetTree, target, _, _, rfl, rfl, htarget, hrest⟩ := h.of_rule
  obtain ⟨isGlobal, globals, _, _, rfl, rfl, hglobals, hrest⟩ :=
    hrest.of_mark.of_flag (v := .bool true) fun lexeme hkind => by rw [valueOf, hkind]; rfl
  obtain ⟨isDuration, durations, _, _, rfl, rfl, hdurations, hrest⟩ :=
    hrest.of_flag (v := .null) fun lexeme hkind => by rw [valueOf, hkind]; rfl
  obtain ⟨sourceTree, source, rfl, rfl, hsource⟩ := hrest.of_either
  have hmarks : (globals ++ durations).map Token.kind =
      (if isGlobal then ["GLOBAL_KW"] else []) ++ if isDuration then ["DURATION_VALUE"] else [] := by
    rw [List.map_append, hglobals, hdurations]
  refine ⟨⟨targetTree, globals ++ durations, sourceTree, htarget.1, ?_,
    hsource.imp And.left And.left⟩, target, source, ?_, ?_, htarget, hsource⟩
  · rw [hmarks]
    cases isGlobal <;> cases isDuration <;> decide
  · simp [Transfer.tree]
  · simp only [Transfer.has, hmarks]
    cases isGlobal <;> cases isDuration <;> rfl

end Parts

/-- How a mapping is built from the values of its parameter and its source. -/
inductive Transfer.Decodes (t : Transfer) (target source : Value) : Value → Prop
  | reference (h : IsOf "variable_name" t.source) : t.Decodes target source
      (mappingOf "variable_name" (t.has "GLOBAL_KW") (t.has "DURATION_VALUE") target source .null)
  | literal (h : IsOf "value" t.source) (hkept : t.marks ≠ [] ∨ ∀ b, source ≠ .bool b) :
      t.Decodes target source
        (mappingOf "value" (t.has "GLOBAL_KW") (t.has "DURATION_VALUE") target .null source)
  /-- A truth value without marks is lost. -/
  | lost (b : Bool) (hmarks : t.marks = []) (hsource : source = .bool b) :
      t.Decodes target source (mappingOf "value" b false target .null .null)

theorem Transfer.has_of_marks {t : Transfer} (h : t.marks ≠ []) :
    t.has "GLOBAL_KW" = true ∨ t.has "DURATION_VALUE" = true := by
  obtain ⟨mark, hmark⟩ := List.exists_mem_of_ne_nil _ h
  have hmem : mark.kind ∈ t.marks.map Token.kind := List.mem_map_of_mem hmark
  simp only [Transfer.has, List.contains_iff_mem]
  rcases List.mem_pair.mp (t.inOrder.subset hmem) with hkind | hkind
  · exact .inl (hkind ▸ hmem)
  · exact .inr (hkind ▸ hmem)

/-- A parameter mapping has a value just if its tree can be constructed. Its marks say whether its
source is global and a duration, and the source is kept as a reference or as a literal. The one
exception is a truth value without marks, which is taken for the mark of a global source. -/
theorem transfer_decoded {tree : Tree} (h : IsOf "moduletype_par_transfer" tree)
    (hlexed : ∀ lexeme ∈ lexemes tree, lexeme.Lexed) :
    ((∃ v, valueOf tree = .ok v) ↔ Constructible tree) ∧
      ∀ v, valueOf tree = .ok v → ∃ (t : Transfer) (target source : Value), t.tree = tree ∧
        valueOf t.target = .ok target ∧ valueOf t.source = .ok source ∧
        t.Decodes target source v := by
  refine ⟨valueOf_returns_iff h hlexed, fun v hv => ?_⟩
  obtain ⟨inner, items, rfl, hparts, hmade⟩ :=
    Formed.only ⟨h, hv⟩ (by repeat constructor) (by repeat constructor)
  obtain ⟨t, target, source, htree, rfl, htarget, hsource⟩ := hparts.transfer
  have href : IsReference target := htarget.hasForm (by decide)
  refine ⟨t, target, source, htree, htarget.2, hsource.elim And.right And.right, ?_⟩
  rcases hsource with hsource | hsource
  · have hliteral : IsLiteral source := hsource.hasForm (by decide)
    by_cases hkept : t.marks ≠ [] ∨ ∀ b, source ≠ .bool b
    · rw [parameterTransfer_literal _ _ href hliteral
        (hkept.elim (fun hmarks => or_assoc.mp (.inl (t.has_of_marks hmarks))) fun h => .inr (.inr h))]
        at hmade
      cases hmade
      exact .literal hsource.1 hkept
    · push Not at hkept
      obtain ⟨hmarks, b, rfl⟩ := hkept
      rw [show flagValues (t.has "GLOBAL_KW") (t.has "DURATION_VALUE") = [] by
        simp [Transfer.has, hmarks, flagValues, globalFlag]] at hmade
      cases (parameterTransfer_truth href b).symm.trans hmade
      exact .lost b hmarks rfl
  · rw [parameterTransfer_reference _ _ href (hsource.hasForm (by decide))] at hmade
    cases hmade
    exact .reference hsource.1

/-! A truth value as the source of a parameter. -/

/-- The parameter `p` connected to `True`, with marks in front of it. -/
def truthTree (marks : List Tree) : Tree :=
  .node "moduletype_par_transfer"
    (variableTree "p" :: marks ++ [.node "value" [word "BOOL" "True"]])

/-- Behind the mark of a global source the truth value is kept. -/
theorem marked_truth_kept : ∃ (t : Transfer) (target source v : Value),
    t.tree = truthTree [word "GLOBAL_KW" "GLOBAL"] ∧ valueOf t.tree = .ok v ∧
      t.Decodes target source v := by
  have htree : IsOf "moduletype_par_transfer" (truthTree [word "GLOBAL_KW" "GLOBAL"]) :=
    Syntax.isOf_of_behind 20 (by decide +kernel)
  have hlexed : ∀ lexeme ∈ lexemes (truthTree [word "GLOBAL_KW" "GLOBAL"]), lexeme.Lexed :=
    Syntax.lexed_of_isWhole (by decide +kernel)
  obtain ⟨t, target, source, ht, -, -, hdecodes⟩ := (transfer_decoded htree hlexed).2 _ rfl
  exact ⟨t, target, source, _, ht, by rw [ht]; rfl, hdecodes⟩

/-- Without a mark it is taken for one. -/
theorem truth_taken_for_global : valueOf (truthTree []) =
    .ok (mappingOf "value" true false (reference "p" .null) .null .null) :=
  rfl

end SattLine.Build
