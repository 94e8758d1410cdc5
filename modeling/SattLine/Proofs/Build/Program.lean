import SattLine.Proofs.Build.DeclarationPromise

/-!
Programs are built. Main statement: of the texts that can be parsed, those and only those give a
base picture whose trees can be constructed. What is wrong with the others is a whole number with too
many digits, one behind a coordinate that is too large for a real, or the mark of a variable name
that does not follow a text.
-/

namespace SattLine.Build

open List
open Grammar (Rule rules)
open Syntax (Tree Token Forms IsOf ruleNamed? leave leave_eq labelOf lexemes lexemesIn parseSource
  ruleNamed?_eq_some_iff lexemesIn_append lexemesIn_leave word)
open Usage (cornerTree cornerValue drawingOf)

theorem rules_kept : List.Forall₂ KeptBy rules promises :=
  rel_append (rel_append (rel_append (rel_append (rel_append
    (rel_append moduleRules_kept declarationRules_kept) codeRules_kept) sequenceRules_kept)
    pictureRules_kept) graphRules_kept) interactionRules_kept

section Rules

variable {name : String} {rule : Rule}

theorem exists_kept (h : ruleNamed? name = some rule) : ∃ promise : Promise, promise.Kept rule := by
  obtain ⟨hmem, -⟩ := ruleNamed?_eq_some_iff.mp h
  obtain ⟨entry, -, -, hkept⟩ := (exists_of_forall₂ rules_kept).1 rule hmem
  exact ⟨entry.2, hkept hmem⟩

theorem kept_of_promised (h : ruleNamed? name = some rule) {promise : Promise}
    (hpromise : (name, promise) ∈ promises) : promise.Kept rule := by
  obtain ⟨own, hmem, hname, hkept⟩ := (exists_of_forall₂ rules_kept).2 _ hpromise
  cases h.symm.trans (ruleNamed?_eq_some_iff.mpr ⟨hmem, hname⟩)
  exact hkept hmem

end Rules

theorem staysNode_of_leave {shape : Grammar.Shape} {label : String} {inner : List Tree}
    (h : leave shape inner = [.node label inner]) : StaysNode shape inner := by
  rintro own tree rfl rfl
  have hsize : sizeOf tree = sizeOf (Syntax.Tree.node label [tree]) :=
    congrArg sizeOf (singleton_injective h)
  simp at hsize
  omega

/-- The trees of a row have values just if they can be constructed, and the values are as
promised. -/
structure Yielding (row : List Grammar.Part) (trees : List Tree) : Prop where
  returns : (∃ items, valuesOf trees = .ok items) ↔ AllConstructible trees
  builds : ∀ {items}, valuesOf trees = .ok items → Builds Built row trees items

section Yielding

variable {row rest : List Grammar.Part} {inner first trees : List Tree} {items : List Value} {name : String}
  {rule : Rule} {tree : Tree} {v : Value}

theorem valuesOf_append_returns :
    (∃ items, valuesOf (first ++ trees) = .ok items) ↔
      (∃ values, valuesOf first = .ok values) ∧ ∃ others, valuesOf trees = .ok others := by
  constructor
  · rintro ⟨items, hitems⟩
    obtain ⟨values, others, hvalues, hothers, -⟩ := valuesOf_append_eq_ok hitems
    exact ⟨⟨values, hvalues⟩, others, hothers⟩
  · rintro ⟨⟨values, hvalues⟩, others, hothers⟩
    exact ⟨_, valuesOf_append hvalues hothers⟩

theorem valuesOf_singleton_eq_ok :
    valuesOf [tree] = .ok items ↔ ∃ v, valueOf tree = .ok v ∧ items = [v] := by
  rw [valuesOf_cons_eq_ok]
  constructor
  · rintro ⟨v, others, hv, hothers, rfl⟩
    cases hothers
    exact ⟨v, hv, rfl⟩
  · rintro ⟨v, hv, rfl⟩
    exact ⟨v, [], hv, rfl, rfl⟩

theorem Yielding.append {whole : List Grammar.Part} (hfirst : Yielding row first) (h : Yielding rest trees)
    (hbuilds : ∀ {values others}, Builds Built row first values → Builds Built rest trees others →
      Builds Built whole (first ++ trees) (values ++ others)) :
    Yielding whole (first ++ trees) where
  returns := by
    rw [valuesOf_append_returns, hfirst.returns, h.returns, allConstructible_append]
  builds hitems := by
    obtain ⟨values, others, hvalues, hothers, rfl⟩ := valuesOf_append_eq_ok hitems
    exact hbuilds (hfirst.builds hvalues) (h.builds hothers)

/-- A part whose trees are those of one of its alternatives, and those of what follows. -/
theorem Yielding.chosen {whole : List Grammar.Part}
    (hlexed : ∀ lexeme ∈ lexemesIn (first ++ trees), lexeme.Lexed)
    (hfirst : (∀ lexeme ∈ lexemesIn first, lexeme.Lexed) → Yielding row first)
    (h : (∀ lexeme ∈ lexemesIn trees, lexeme.Lexed) → Yielding rest trees)
    (hbuilds : ∀ {values others}, Builds Built row first values → Builds Built rest trees others →
      Builds Built whole (first ++ trees) (values ++ others)) :
    Yielding whole (first ++ trees) := by
  rw [lexemesIn_append, forall_mem_append] at hlexed
  exact (hfirst hlexed.1).append (h hlexed.2) hbuilds

theorem Yielding.parts (h : Yielding row inner) (hforms : Forms row inner)
    (hlexed : ∀ lexeme ∈ lexemesIn inner, lexeme.Lexed) (hitems : valuesOf inner = .ok items) :
    Parts row inner items :=
  ⟨h.builds hitems, hforms, hitems, hlexed⟩

theorem Yielding.token {kind : String} {lexeme : Token} (hkind : lexeme.kind = kind)
    (hlexed : lexeme.Lexed) : Yielding [.token kind] [.leaf lexeme] where
  returns := by
    rw [allConstructible_singleton, Constructible, ← leaf_returns_iff hlexed]
    simp only [valuesOf_singleton_eq_ok]
    constructor
    · rintro ⟨_, v, hv, -⟩
      exact ⟨v, hv⟩
    · rintro ⟨v, hv⟩
      exact ⟨[v], v, hv, rfl⟩
  builds hitems := by
    obtain ⟨v, hv, rfl⟩ := valuesOf_singleton_eq_ok.mp hitems
    exact .token hkind hv .nil

theorem Yielding.node (h : Yielding row inner) (hrule : ruleNamed? name = some rule)
    (hrow : row ∈ rule.alternatives) (hforms : Forms row inner)
    (hlexed : ∀ lexeme ∈ lexemesIn inner, lexeme.Lexed)
    (hleave : leave rule.shape inner = [.node (labelOf rule.shape) inner]) :
    Yielding [.rule name] [.node (labelOf rule.shape) inner] where
  returns := by
    obtain ⟨promise, hkept⟩ := exists_kept hrule
    have hnode := staysNode_of_leave hleave
    rw [allConstructible_singleton, Constructible, ← h.returns]
    simp only [valuesOf_singleton_eq_ok, valueOf_node_eq_ok]
    constructor
    · rintro ⟨_, v, ⟨items, hitems, hv⟩, -⟩
      exact ⟨⟨items, hitems⟩,
        (hkept.returns hrow (h.parts hforms hlexed hitems) hnode).mp ⟨v, hv⟩⟩
    · rintro ⟨⟨items, hitems⟩, hassembles⟩
      obtain ⟨v, hv⟩ := (hkept.returns hrow (h.parts hforms hlexed hitems) hnode).mpr hassembles
      exact ⟨[v], v, ⟨items, hitems, hv⟩, rfl⟩
  builds hvalues := by
    obtain ⟨v, hvalue, rfl⟩ := valuesOf_singleton_eq_ok.mp hvalues
    obtain ⟨items, hitems, hv⟩ := valueOf_node_eq_ok.mp hvalue
    have hparts := h.parts hforms hlexed hitems
    have hnode := staysNode_of_leave hleave
    obtain ⟨promise, hkept⟩ := exists_kept hrule
    refine .rule ⟨.of_row hrule hrow hforms hleave, hvalue, (hkept.made hrow hparts hnode hv).1, ?_⟩
      .nil
    intro promise hpromise
    exact ((kept_of_promised hrule hpromise).made hrow hparts hnode hv).2

/-- A rule that has given way to its only part. -/
theorem Yielding.only (h : Yielding row [tree]) (hrule : ruleNamed? name = some rule)
    (hrow : row ∈ rule.alternatives) (hforms : Forms row [tree])
    (hlexed : ∀ lexeme ∈ lexemesIn [tree], lexeme.Lexed)
    (hleave : leave rule.shape [tree] = [tree]) {label : String}
    (hshape : rule.shape = .collapsing label) : Yielding [.rule name] [tree] where
  returns := h.returns
  builds hvalues := by
    obtain ⟨v, hvalue, rfl⟩ := valuesOf_singleton_eq_ok.mp hvalues
    have hparts := h.parts hforms hlexed hvalues
    refine .rule ⟨.of_row hrule hrow hforms hleave, hvalue, hparts.fine v mem_cons_self, ?_⟩
      .nil
    intro promise hpromise
    exact (kept_of_promised hrule hpromise).only hshape hrow hparts

end Yielding

theorem forms_yielding {row : List Grammar.Part} {trees : List Tree} (h : Forms row trees)
    (hlexed : ∀ lexeme ∈ lexemesIn trees, lexeme.Lexed) : Yielding row trees := by
  induction h with
  | nil =>
    refine ⟨iff_of_true ⟨[], rfl⟩ trivial, fun hitems => ?_⟩
    cases hitems
    exact .nil
  | token hkind _ ih =>
    simp only [lexemesIn, lexemes, forall_mem_append, forall_mem_singleton] at hlexed
    refine (Yielding.token hkind hlexed.1).append (ih hlexed.2) fun hfirst hrest => ?_
    obtain ⟨_, v, _, _, hone, rfl, -, hv, hnil⟩ := hfirst.of_token
    cases hone
    obtain ⟨-, rfl⟩ := hnil.of_nil
    exact .token hkind hv hrest
  | mark _ ih => exact ⟨(ih hlexed).returns, fun hitems => .mark ((ih hlexed).builds hitems)⟩
  | @rule name rule row rest inner trees hrule hrow hinner _ ihinner ih =>
    simp only [lexemesIn_append, lexemesIn_leave, forall_mem_append] at hlexed
    obtain ⟨tree, hleave, hcases⟩ := leave_eq hrule inner
    have hfirst : Yielding [.rule name] [tree] := by
      rcases hcases with rfl | ⟨rfl, label, hshape⟩
      · exact (ihinner hlexed.1).node hrule hrow hinner hlexed.1 hleave
      · exact (ihinner hlexed.1).only hrule hrow hinner hlexed.1 hleave hshape
    rw [hleave]
    refine hfirst.append (ih hlexed.2) fun hbuilds hrest => ?_
    obtain ⟨_, v, _, _, hone, rfl, hbuilt, hnil⟩ := hbuilds.of_rule
    cases hone
    obtain ⟨-, rfl⟩ := hnil.of_nil
    exact .rule hbuilt hrest
  | oneOf hrow _ _ ihfirst ih => exact .chosen hlexed ihfirst ih (.oneOf hrow)
  | opt hrow _ _ ihfirst ih => exact .chosen hlexed ihfirst ih (.opt hrow)
  | skip _ ih => exact ⟨(ih hlexed).returns, fun hitems => .skip ((ih hlexed).builds hitems)⟩
  | more hrow _ _ ihfirst ih => exact .chosen hlexed ihfirst ih (.more hrow)
  | stop _ ih => exact ⟨(ih hlexed).returns, fun hitems => .stop ((ih hlexed).builds hitems)⟩
  | some1 hrow _ _ ihfirst ih => exact .chosen hlexed ihfirst ih (.some1 hrow)

section Trees

variable {name : String} {tree : Tree} {v : Value}

/-- A tree of the language has a value just if it can be constructed. -/
theorem valueOf_returns_iff (h : IsOf name tree) (hlexed : ∀ lexeme ∈ lexemes tree, lexeme.Lexed) :
    (∃ v, valueOf tree = .ok v) ↔ Constructible tree := by
  have hyields := forms_yielding h (by simpa [lexemesIn] using hlexed)
  rw [← allConstructible_singleton, ← hyields.returns]
  simp only [valuesOf_singleton_eq_ok]
  constructor
  · rintro ⟨v, hv⟩
    exact ⟨[v], v, hv, rfl⟩
  · rintro ⟨_, v, hv, -⟩
    exact ⟨v, hv⟩

theorem built_of_valueOf (h : IsOf name tree) (hlexed : ∀ lexeme ∈ lexemes tree, lexeme.Lexed)
    (hv : valueOf tree = .ok v) : Built name tree v := by
  have hyields := forms_yielding h (by simpa [lexemesIn] using hlexed)
  have hbuilds := hyields.builds (valuesOf_singleton_eq_ok.mpr ⟨v, hv, rfl⟩)
  cases hbuilds with
  | rule hbuilt _ => exact hbuilt

theorem program_eq_ok {source : String} :
    program source = .ok v ↔ ∃ tree, parseSource source = .ok tree ∧ valueOf tree = .ok v := by
  rw [program]
  cases parseSource source with
  | error e => simp [ofParse]
  | ok tree => cases hvalue : valueOf tree <;> simp [ofParse, hvalue]

end Trees

/-- A text gives a program exactly if it can be parsed and its tree can be constructed, and the
program is a base picture. So it is of any tree of the language, whatever text it comes from. -/
theorem program_built_iff (source : String) :
    ((∃ v, program source = .ok v) ↔
      ∃ tree, parseSource source = .ok tree ∧ Constructible tree) ∧
      (∀ v, program source = .ok v → v.isElement .basePicture = true) ∧
      ∀ tree, IsOf "start" tree → (∀ lexeme ∈ lexemes tree, lexeme.Lexed) →
        ((∃ v, valueOf tree = .ok v) ↔ Constructible tree) ∧
          ∀ v, valueOf tree = .ok v → v.isElement .basePicture = true := by
  have htrees : ∀ tree, IsOf "start" tree → (∀ lexeme ∈ lexemes tree, lexeme.Lexed) →
      ((∃ v, valueOf tree = .ok v) ↔ Constructible tree) ∧
        ∀ v, valueOf tree = .ok v → v.isElement .basePicture = true := fun tree htree hlexed =>
    ⟨valueOf_returns_iff htree hlexed, fun v hv =>
      (built_of_valueOf htree hlexed hv).keeps (ofKind .basePicture) (by repeat constructor)⟩
  have hparsed : ∀ tree, parseSource source = .ok tree → _ := fun tree hparse =>
    htrees tree (Syntax.isOf_of_parseSource hparse).1 (Syntax.isOf_of_parseSource hparse).2
  simp only [program_eq_ok]
  refine ⟨⟨?_, ?_⟩, ?_, htrees⟩
  · rintro ⟨v, tree, hparse, hv⟩
    exact ⟨tree, hparse, (hparsed tree hparse).1.mp ⟨v, hv⟩⟩
  · rintro ⟨tree, hparse, hconstructible⟩
    obtain ⟨v, hv⟩ := (hparsed tree hparse).1.mpr hconstructible
    exact ⟨v, tree, hparse, hv⟩
  · rintro v ⟨tree, hparse, hv⟩
    exact (hparsed tree hparse).2 v hv

/-! Programs without modules. -/

def boundsTree : Tree :=
  .node "origo_size_pair" [cornerTree, cornerTree]

/-- A header with arguments. -/
def headerTree (arguments : List Tree) : Tree :=
  .node "module_header" ([word "NAME" "Plant", word "INVOCATION" "Invocation",
    .node "invoke_coord" [word "REAL" "0.0", word "REAL" "0.0", word "REAL" "0.0",
      word "REAL" "1.0", word "REAL" "1.0"]] ++ arguments)

/-- A drawing of objects. -/
def drawingTree (objects : List Tree) : Tree :=
  .node "moduledef" ([word "MODULEDEF" "ModuleDef",
    .node "clippingbounds" [word "CLIPPINGBOUNDS" "ClippingBounds", boundsTree],
    .node "moduledef_opts" []] ++ objects)

def programTree (header drawing : Tree) : Tree :=
  .node "start" [.node "header_lines" [.node "syntax_version_line" [word "STRING" "\"\""],
      .node "original_file_date_line" [word "STRING" "\"\""],
      .node "program_date_line" [word "STRING" "\"\""]],
    .node "base_picture_module" [header, word "MODULEDEFINITION" "MODULEDEFINITION",
      .node "sl_datecode" [word "DATECODE_PREFIX" "DateCode_", word "SL_DATECODE" "1234567"],
      .node "base_module_body" [.node "module_body" [drawing]], word "ENDDEF_KW" "ENDDEF"]]

def originValue : Value :=
  .tuple [.real (.zero false), .real (.zero false), .real (.zero false),
    .real (.finite false 4503599627370496 (-52)), .real (.finite false 4503599627370496 (-52))]

def emptyDrawing : Value :=
  drawingOf (.tuple [cornerValue, cornerValue]) [] []

/-- The value of a header whose module is enabled by the value of a tail. -/
def headerValue (tail : Value) : Value :=
  .element .moduleHeader [.text "Plant", originValue, .null, .bool true, .null, .bool false, tail,
    .null, .bool false]

def programValue (tail : Value) : Value :=
  .element .basePicture [headerValue tail, .text "BasePicture", originValue, .list [], .list [],
    .list [], .list [], emptyDrawing, .null, .null, .null, .null]

theorem valueOf_emptyDrawing : valueOf (drawingTree []) = .ok emptyDrawing := by
  rfl

theorem valueOf_programTree {header : Tree} {tail : Value}
    (hheader : valueOf header = .ok (headerValue tail)) :
    valueOf (programTree header (drawingTree [])) = .ok (programValue tail) := by
  have hbody : valueOf (.node "base_module_body" [.node "module_body" [drawingTree []]]) =
      .ok (.tree "base_module_body" false [.tree "module_body" false [emptyDrawing]]) := by
    simp only [valuesOf, valueOf, valueOf_emptyDrawing]
    rfl
  have hdate : valueOf (.node "sl_datecode" [word "DATECODE_PREFIX" "DateCode_",
      word "SL_DATECODE" "1234567"]) = .ok (.int 1234567) := by
    rfl
  have hmodule : valueOf (.node "base_picture_module" [header,
      word "MODULEDEFINITION" "MODULEDEFINITION", .node "sl_datecode"
        [word "DATECODE_PREFIX" "DateCode_", word "SL_DATECODE" "1234567"],
      .node "base_module_body" [.node "module_body" [drawingTree []]],
      word "ENDDEF_KW" "ENDDEF"]) = .ok (programValue tail) := by
    refine valueOf_node_eq_ok.mpr ⟨[headerValue tail, .token "MODULEDEFINITION" "MODULEDEFINITION",
      .int 1234567, .tree "base_module_body" false [.tree "module_body" false [emptyDrawing]],
      .token "ENDDEF_KW" "ENDDEF"], ?_, rfl⟩
    simp only [valuesOf_cons_eq_ok]
    exact ⟨_, _, hheader, ⟨_, _, rfl, ⟨_, _, hdate, ⟨_, _, hbody, ⟨_, _, rfl, rfl, rfl⟩, rfl⟩, rfl⟩,
      rfl⟩, rfl⟩
  exact valueOf_node_eq_ok.mpr ⟨_, valuesOf_cons_eq_ok.mpr ⟨_, _, rfl,
    valuesOf_singleton_eq_ok.mpr ⟨_, hmodule, rfl⟩, rfl⟩, rfl⟩

/-- The program that has nothing in it. -/
def emptyTree : Tree :=
  programTree (headerTree []) (drawingTree [])

theorem isOf_emptyTree : IsOf "start" emptyTree :=
  Syntax.isOf_of_behind 40 (by decide +kernel)

theorem lexed_emptyTree : ∀ lexeme ∈ lexemes emptyTree, lexeme.Lexed :=
  Syntax.lexed_of_isWhole (by decide +kernel)

theorem valueOf_emptyTree : valueOf emptyTree = .ok (programValue .null) :=
  valueOf_programTree rfl

theorem emptyTree_built :
    valueOf emptyTree = .ok (programValue .null) ∧ Constructible emptyTree ∧
      (programValue .null).isElement .basePicture = true := by
  obtain ⟨hiff, hkind⟩ := (program_built_iff "").2.2 emptyTree isOf_emptyTree lexed_emptyTree
  exact ⟨valueOf_emptyTree, hiff.mp ⟨_, valueOf_emptyTree⟩, hkind _ valueOf_emptyTree⟩

/-! A program that can be parsed and has no value: the mark of a variable name stands in front of
all texts of its object. -/

def strayMark : Tree :=
  .node "graph_objects" [word "GRAPHOBJECTS" "GraphObjects", .node "graph_object"
    [.node "text_object" [word "TEXTOBJECT" "TextObject", boundsTree, word "VARNAME" "VarName",
      .node "common_properties" []]]]

/-- A tree of the language without a value. -/
theorem strayMark_refused :
    IsOf "start" (programTree (headerTree []) (drawingTree [strayMark])) ∧
      (∀ lexeme ∈ lexemes (programTree (headerTree []) (drawingTree [strayMark])), lexeme.Lexed) ∧
      ∃ bounds, valueOf boundsTree = .ok bounds ∧
        valueOf (programTree (headerTree []) (drawingTree [strayMark])) =
          .error ⟨"text_object", .refused (.noTextBefore bounds)⟩ :=
  ⟨Syntax.isOf_of_behind 40 (by decide +kernel), Syntax.lexed_of_isWhole (by decide +kernel), _, rfl, rfl⟩

end SattLine.Build
