import Mathlib.Data.Set.List
import SattLine.Proofs.Build.ModulePromise

/-!
The rules of declarations keep their promises. Main statement: the variables of a group can be
read, and so can a module type.
-/

namespace SattLine.Build

open Declaring (Reads)
open Grammar (Rule rules declarationRules)
open Syntax (Tree lexemes)

section Variables

variable {items names rest : List Value} {v : Value}

theorem dataTypeOf?_text (name : String) :
    ∃ type ref, (Value.text name).dataTypeOf? = some type ∧ type.toTypeRef = .ok ref := by
  rw [Value.dataTypeOf?]
  cases SimpleType.ofName? name with
  | none | some simple => exact ⟨_, _, rfl, rfl⟩

/-- The variable of a name with what its group says. -/
def variableFrom (type : Value) (isGlobal : Bool) (m : Modifiers) (init : Value)
    (declared : String × Value) : Value :=
  Value.ofFields .variable [("name", .text declared.1), ("datatype", type),
    ("global_var", .bool isGlobal), ("const", .bool m.const), ("state", .bool m.state),
    ("opsave", .bool m.opsave), ("secure", .bool m.secure), ("init_value", init),
    ("description", declared.2)]

theorem fine_variableFrom {type : Value} {ref : TypeRef} (h : type.toTypeRef = .ok ref)
    (isGlobal : Bool) (m : Modifiers) (init : Value) (declared : String × Value) :
    Fine (variableFrom type isGlobal m init declared) := by
  have hfields : variableFrom type isGlobal m init declared = .element .variable
      [.text declared.1, type, .bool isGlobal, .bool m.const, .bool m.state, .bool m.opsave,
        .bool m.secure, init, declared.2, .bool false, .bool false, .list []] := rfl
  rw [hfields]
  refine .element fun marks => ?_
  simp only [Value.toVariable, h]
  exact ⟨_, _, rfl, trivial⟩

/-- A declared name as it stands in front of its group. -/
def declaredItem (declared : String × Value) : Value :=
  .tuple [.text declared.1, declared.2]

/-- The flag of global variables in front of their data type. -/
def globalFlag (isGlobal : Bool) : List Value :=
  if isGlobal then [.bool true] else []

/-- What comes first behind the modifiers. -/
def firstInitial : List Value → Value
  | [] => .null
  | .typeDefault :: _ => .null
  | v :: _ => v

/-- The variables of a group, whatever stands behind its data type. -/
theorem variableGroup_eq (names : List (String × Value)) (isGlobal : Bool) {name : String}
    {type : Value} (htype : (Value.text name).dataTypeOf? = some type) {behind rest : List Value}
    {m : Modifiers} (hread : readModifiers {} (behind.filter fun v => !v.isNull) = (m, rest)) :
    variableGroup (names.map declaredItem ++ (globalFlag isGlobal ++ Value.text name :: behind)) =
      .ok (.list (names.map (variableFrom type isGlobal m (firstInitial rest)))) := by
  have hflag : ∀ following : List Value,
      (globalFlag isGlobal ++ Value.text name :: following).takeWhile Value.isTuple = [] ∧
        readGlobal ((globalFlag isGlobal ++ Value.text name :: following).dropWhile Value.isTuple) =
          (isGlobal, .text name :: following) := by
    cases isGlobal <;> exact fun _ => ⟨rfl, rfl⟩
  have htuples : ∀ v ∈ names.map declaredItem, v.isTuple = true :=
    List.forall_mem_map.mpr fun _ _ => rfl
  have hkept : (names.map declaredItem ++ (globalFlag isGlobal ++ Value.text name :: behind)).filter
      (fun v => !v.isNull) = names.map declaredItem ++
        (globalFlag isGlobal ++ Value.text name :: behind.filter fun v => !v.isNull) := by
    have hnames : (names.map declaredItem).filter (fun v => !v.isNull) = names.map declaredItem :=
      List.filter_eq_self.mpr (List.forall_mem_map.mpr fun _ _ => rfl)
    rw [List.filter_append, hnames]
    cases isGlobal <;> rfl
  unfold variableGroup
  simp only [hkept, List.takeWhile_append_of_pos htuples, List.dropWhile_append_of_pos htuples,
    (hflag _).1, (hflag _).2, List.append_nil, Value.text?, hread]
  split
  · rename_i hnone
    obtain rfl : names = [] := by simpa using hnone
    rfl
  · refine bind_eq_ok.mpr ⟨_, mapM_eq_ok_iff.mpr (List.forall₂_map_left_iff.mpr
      (List.forall₂_map_right_iff.mpr (List.forall₂_same.mpr fun item _ => ?_))), rfl⟩
    simp only [declaredItem, variableOf]
    have hlookup : ∀ rest : List (String × Value),
        (("name", Value.text item.1) :: ("datatype", .text name) :: rest).lookup "datatype" =
          some (.text name) := fun _ => rfl
    simp only [hlookup, Option.getD_some, htype]
    rfl

end Variables

section Types

variable {items rest : List Value}

theorem typeDefinition_made (name : String) (hrest : AllFine rest) :
    ∃ v, typeDefinition (.text name :: rest) = .ok v ∧ Fine v := by
  have hitems : AllFine (.text name :: rest) := .cons (.plain rfl) hrest
  have hbody := hitems.flattenAll
  have hname : firstOrNull Value.isText (flattenAll (.text name :: rest)) = .text name := rfl
  unfold typeDefinition
  simp only [hname]
  refine ⟨_, rfl, ?_⟩
  unfold withScanGroup
  split
  · exact .element (Value.reads_typeDef rfl hbody.wellBodied (hbody.variablesUnder _)
      (hbody.variablesUnder _) hbody.submodulesUnder ⟨none, rfl⟩)
  · exact .element (Value.reads_typeDef rfl hbody.wellBodied (hbody.variablesUnder _)
      (hbody.variablesUnder _) hbody.submodulesUnder
      (hbody.scanGroupOf.getOrNull "groupconn").baseName)

theorem fine_typeDefinitions (h : AllFine items) : Fine (typeDefinitions items) := by
  refine .tree (AllFine.flatMap fun v hv => ?_)
  have hone : AllFine [v] := .cons (h v hv) .nil
  split
  · exact hone
  · exact hone.elementsUnder _ _

theorem fine_submodules (h : AllFine items) : Fine (submodules items) := by
  refine .tree (AllFine.cons (.list (AllFine.flatMap fun v hv => ?_)) .nil)
  split
  · exact .cons (h v hv) .nil
  · exact (h v hv).children?.filter _

theorem fine_variableList (h : AllFine items) : Fine (variableList items) := by
  refine .tree (AllFine.flatMap fun v hv => ?_)
  split
  · exact (h _ hv).of_list
  · exact .nil

theorem fine_initialValue (h : AllFine items) : Fine (initialValue items) :=
  AllFine.getD fun v hv => h v (List.mem_of_getLast? hv)

end Types

section Parts

variable {row rest : List Grammar.Part} {inner : List Tree} {items : List Value} {v : Value}

/-- What holds of all values of a rule holds of those of its rounds behind a mark. -/
theorem Rounds.forall_marked {spec : Spec} {kind name : String} {P : Value → Prop}
    (hP : ∀ tree v, spec name tree v → P v)
    (h : Rounds spec [[.mark kind, .rule name]] inner items) : ∀ v ∈ items, P v := by
  induction h with
  | nil => simp
  | cons hrow hfirst _ ih =>
    obtain rfl := List.mem_singleton.mp hrow
    obtain ⟨tree, v, rfl, rfl, hv⟩ := hfirst.of_mark.of_lone
    exact List.forall_mem_cons.mpr ⟨hP tree v hv, ih⟩

theorem Builds.of_flag {spec : Spec} {kind : String} {v : Value}
    (h : Builds spec (.opt [[.token kind]] :: rest) inner items)
    (hv : ∀ lexeme : Syntax.Token, lexeme.kind = kind → valueOf (.leaf lexeme) = .ok v) :
    ∃ (isThere : Bool) (marks : List Syntax.Token) (others : List Tree) (following : List Value),
      inner = marks.map .leaf ++ others ∧ items = (if isThere then [v] else []) ++ following ∧
        marks.map Syntax.Token.kind = (if isThere then [kind] else []) ∧
          Builds spec rest others following := by
  rcases h.of_opt with ⟨_, hrow, _, _, others, following, rfl, rfl, hmark, hrest⟩ | hrest
  · cases List.mem_singleton.mp hrow
    obtain ⟨lexeme, w, _, _, rfl, rfl, hkind, hw, hnil⟩ := hmark.of_token
    cases hnil
    cases hw.symm.trans (hv lexeme hkind)
    exact ⟨true, [lexeme], others, following, rfl, rfl, by simp [hkind], hrest⟩
  · exact ⟨false, [], inner, items, rfl, rfl, rfl, hrest⟩

theorem Parts.grouped
    (h : Parts (.rule "variable_item" :: .many [[.mark "COMMA", .rule "variable_item"]] ::
      .mark "COLON" :: .opt [[.token "GLOBAL_KW"]] :: .token "NAME" :: rest) inner items) :
    ∃ v, variableGroup items = .ok v ∧ Fine v := by
  have hdeclared : ∀ tree v, Built "variable_item" tree v → IsDeclared v :=
    fun _ _ hv => hv.keeps (valued IsDeclared) (by repeat constructor)
  obtain ⟨_, v, _, _, rfl, rfl, hv, hmany⟩ := h.builds.of_rule
  obtain ⟨_, values, _, _, rfl, rfl, hrounds, hmark⟩ := hmany.of_many
  have hnames : ∀ w ∈ v :: values, IsDeclared w :=
    List.forall_mem_cons.mpr ⟨hdeclared _ v hv, hrounds.forall_marked hdeclared⟩
  obtain ⟨names, hitems⟩ : v :: values ∈ Set.range (List.map declaredItem) := by
    rw [Set.range_list_map]
    intro w hw
    obtain ⟨name, description, rfl⟩ := hnames w hw
    exact ⟨(name, description), rfl⟩
  obtain ⟨isGlobal, _, _, _, rfl, rfl, -, hname⟩ :=
    hmark.of_mark.of_flag (v := .bool true) fun lexeme hkind => by rw [valueOf, hkind]; rfl
  obtain ⟨_, type, _, following, rfl, rfl, -⟩ := hname.of_name
  obtain ⟨kept, ref, hkept, href⟩ := dataTypeOf?_text type
  rw [← List.cons_append, ← hitems]
  refine ⟨_, variableGroup_eq names isGlobal hkept rfl, .list ?_⟩
  exact List.forall_mem_map.mpr fun item _ => fine_variableFrom href _ _ _ item

theorem Parts.declared
    (h : Parts [.token "NAME", .opt [[.token "STRING"], [.token "STRING_CRLF"]]] inner items) :
    ∃ v, variableItem items = .ok v ∧ Fine v ∧ IsDeclared v := by
  obtain ⟨_, name, _, _, rfl, rfl, -⟩ := h.builds.of_name
  exact ⟨_, rfl, .plain rfl, name, _, rfl⟩

theorem ofLiteral_of_leaf {lexeme : Syntax.Token}
    (hkind : lexeme.kind ∈ ["BOOL", "REAL", "STRING", "SIGNED_INT"])
    (hv : valueOf (.leaf lexeme) = .ok v) : ofLiteral (.leaf lexeme) v := by
  refine ⟨isLiteral_of_leaf hkind hv, ?_⟩
  have hnumbered : lexeme.kind ≠ "SIGNED_INT" → (∀ n, v ≠ .int n) →
      Numbered (.leaf lexeme) v := by
    intro hother hint
    exact numbered_of_none (by simpa [lexemes] using hother) hint
  simp only [List.mem_cons, List.not_mem_nil, or_false] at hkind
  rcases hkind with hkind | hkind | hkind | hkind
  · obtain ⟨b, rfl⟩ := bool_of_leaf hkind hv
    exact hnumbered (by rw [hkind]; decide) (by simp)
  · obtain ⟨x, rfl⟩ := real_of_leaf hkind hv
    exact hnumbered (by rw [hkind]; decide) (by simp)
  · cases text_of_string (.inl hkind) hv
    exact hnumbered (by rw [hkind]; decide) (by simp)
  · obtain ⟨n, rfl, hn⟩ := readInt_of_leaf hkind hv
    intro m
    simp [lexemes, hkind, hn]

theorem Parts.literal {kind : String} (h : Parts [.token kind] inner items)
    (hkind : kind ∈ ["BOOL", "REAL", "STRING", "SIGNED_INT"]) :
    ∃ v, Build.literal items = .ok v ∧ Fine v ∧ ofLiteral (.node "value" inner) v := by
  obtain ⟨lexeme, v, _, _, rfl, rfl, rfl, hv, hnil⟩ := h.builds.of_token
  cases hnil
  obtain ⟨hliteral, hnumbered⟩ := ofLiteral_of_leaf hkind hv
  exact ⟨v, literal_of_isLiteral hliteral, hliteral.fine, hliteral, hnumbered.node⟩

theorem Parts.defined (h : Parts (.token "NAME" :: rest) inner items) :
    ∃ v, typeDefinition items = .ok v ∧ Fine v := by
  have hfine := h.fine
  obtain ⟨_, name, _, _, rfl, rfl, -⟩ := h.builds.of_name
  exact typeDefinition_made name (List.forall_mem_cons.mp hfine).2

end Parts

theorem declarationRules_kept : List.Forall₂ KeptBy declarationRules declarationPromises := by
  refine .cons ⟨rfl, fun _ => ?records⟩ <| .cons ⟨rfl, fun _ => ?record⟩ <|
    .cons ⟨rfl, fun _ => ?item⟩ <| .cons ⟨rfl, fun _ => ?group⟩ <| .cons ⟨rfl, fun _ => ?groups⟩ <|
    .cons ⟨rfl, fun _ => ?init⟩ ?from_values
  case' from_values =>
    refine .cons ⟨rfl, fun _ => ?literal⟩ <| .cons ⟨rfl, fun _ => ?types⟩ <|
      .cons ⟨rfl, fun _ => ?parameters⟩ <| .cons ⟨rfl, fun _ => ?locals⟩ <|
      .cons ⟨rfl, fun _ => ?type⟩ <| .cons ⟨rfl, fun _ => ?submodules⟩ .nil
  case records => exact .of_fine (by repeat constructor) fun _ h => .tree (h.filter _)
  case record =>
    refine .of_fine (by repeat constructor) fun _ _ => ?_
    exact .element trivial
  case item => exact .of_row (by repeat constructor) fun hparts => hparts.declared
  case group => exact .of_fine_row (by repeat constructor) fun hparts => hparts.grouped
  case groups => exact .of_fine (by repeat constructor) fun _ => fine_variableList
  case init => exact .of_fine (by repeat constructor) fun _ => fine_initialValue
  case literal =>
    refine .of_made (by repeat constructor) fun {row inner items} hrow hparts => ?_
    have hone : ∃ kind ∈ ["BOOL", "REAL", "STRING", "SIGNED_INT"], row = [.token kind] := by
      simp only [List.mem_cons, List.not_mem_nil, or_false] at hrow
      rcases hrow with rfl | rfl | rfl | rfl <;> exact ⟨_, by repeat constructor, rfl⟩
    obtain ⟨kind, hkind, rfl⟩ := hone
    exact hparts.literal hkind
  case types => exact .of_fine (by repeat constructor) fun _ => fine_typeDefinitions
  case parameters | locals =>
    exact .of_fine (by repeat constructor) fun _ h => .tree (h.lastChildren _)
  case type => exact .of_fine_row (by repeat constructor) fun hparts => hparts.defined
  case submodules => exact .of_fine (by repeat constructor) fun _ => fine_submodules

end SattLine.Build
