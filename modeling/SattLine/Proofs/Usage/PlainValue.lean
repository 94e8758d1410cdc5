import SattLine.Proofs.Build.Row
import SattLine.Usage.Code

/-!
Values in which nothing is found when the variables in the graphics of a module are looked for.
The values of expressions and of most properties of graphical and interactive objects are such:
the tails in them have been opened, so that they are no longer met as tails.
-/

namespace SattLine.Usage

open Build
open List
open Grammar (Rule)
open Syntax (ruleNamed? labelOf)

/-- What is found in the tails that are gathered from a value. -/
def gathered (v : Value) : List Finding :=
  (Build.tails v).flatMap tail

def gatheredIn (items : List Value) : List Finding :=
  (tailsOf items).flatMap tail

/-- A value in which nothing is found, neither as a part of a graphical object nor as one of an
interaction. -/
def Plain (v : Value) : Prop :=
  gathered v = [] ∧ body v = []

def AllPlain (items : List Value) : Prop :=
  ∀ v ∈ items, Plain v

theorem gatheredIn_nil : gatheredIn [] = [] :=
  rfl

theorem gatheredIn_cons (v : Value) (rest : List Value) :
    gatheredIn (v :: rest) = gathered v ++ gatheredIn rest :=
  flatMap_append

theorem bodies_nil : bodies [] = [] :=
  rfl

theorem bodies_cons (v : Value) (rest : List Value) : bodies (v :: rest) = body v ++ bodies rest :=
  rfl

variable {items : List Value} {label : String} {v : Value}

theorem AllPlain.nothing (h : AllPlain items) : gatheredIn items = [] ∧ bodies items = [] := by
  induction items with
  | nil => exact ⟨gatheredIn_nil, bodies_nil⟩
  | cons v rest ih =>
    obtain ⟨hv, hrest⟩ := forall_mem_cons.mp h
    obtain ⟨hgathered, hbodies⟩ := ih hrest
    simp [gatheredIn_cons, bodies_cons, hv.1, hv.2, hgathered, hbodies]

theorem plain_text (s : String) : Plain (.text s) :=
  ⟨rfl, rfl⟩

theorem plain_token (kind s : String) : Plain (.token kind s) :=
  ⟨rfl, rfl⟩

theorem plain_null : Plain .null :=
  ⟨rfl, rfl⟩

theorem plain_bool (b : Bool) : Plain (.bool b) :=
  ⟨rfl, rfl⟩

theorem plain_real (x : Number.Double) : Plain (.real x) :=
  ⟨rfl, rfl⟩

theorem plain_tuple (items : List Value) : Plain (.tuple items) :=
  ⟨rfl, rfl⟩

theorem plain_list (h : AllPlain items) : Plain (.list items) := by
  have hnone := h.nothing
  simpa [Plain, gathered, Build.tails, body, gatheredIn] using hnone

theorem gathered_tree (hlabel : isTailLabel label = false) (ofRule : Bool) (items : List Value) :
    gathered (.tree label ofRule items) = gatheredIn items := by
  rw [gathered, Build.tails, hlabel]
  rfl

theorem body_tree (hlabel : isTailLabel label = false) (ofRule : Bool) (items : List Value) :
    body (.tree label ofRule items) = bodies items := by
  have hother : ¬ ((label == "enable_expression" || label == "InVar_" ||
      label == "invar_tail") = true) := by
    intro hmet
    simp only [Bool.or_eq_true, beq_iff_eq] at hmet
    rcases hmet with (rfl | rfl) | rfl <;> cases hlabel
  rw [body, if_neg hother]

theorem plain_tree (hlabel : isTailLabel label = false) (ofRule : Bool) (h : AllPlain items) :
    Plain (.tree label ofRule items) := by
  rw [Plain, gathered_tree hlabel, body_tree hlabel]
  exact h.nothing

/-- A dictionary without enabling and assigning entries is plain if its values are. -/
theorem plain_dict {keys values : List Value} (henable : (Value.dict keys values).get? "enable" = none)
    (hassign : (Value.dict keys values).get? "assign" = none) (h : AllPlain values) :
    Plain (.dict keys values) := by
  have hnone := h.nothing
  simp only [gatheredIn] at hnone
  simp [Plain, gathered, Build.tails, body, henable, Value.hasKey, Value.getOrNull, hassign,
    assigned, Value.holds, hnone]

theorem plain_leaf {lexeme : Syntax.Token} (h : valueOf (.leaf lexeme) = .ok v) : Plain v := by
  cases lexical_of_leaf h with
  | null => exact plain_null
  | real x => exact plain_real x
  | text s => exact plain_text s
  | zoomable => exact plain_dict rfl rfl (by simpa [AllPlain] using plain_bool true)
  | token kind s => exact plain_token kind s
  | _ => exact ⟨rfl, rfl⟩

/-- Constructions of expressions give one of their items or a tuple. -/
def ItemOrTuple (items : List Value) (v : Value) : Prop :=
  v ∈ items ∨ ∃ fields, v = .tuple fields

theorem ItemOrTuple.plain (h : ItemOrTuple items v) (hitems : AllPlain items) : Plain v := by
  rcases h with hv | ⟨fields, rfl⟩
  · exact hitems v hv
  · exact plain_tuple fields

section Expressions

variable {items : List Value} {v : Value}

theorem mem_of_mem_withoutTokens (h : v ∈ withoutTokens items) : v ∈ items :=
  (mem_filter.mp h).1

theorem itemOrTuple_chain (op : String) : ItemOrTuple items (chain op items) := by
  unfold chain
  split
  · rename_i operand heq
    exact .inl (mem_of_mem_withoutTokens (by simp [heq]))
  · exact .inr ⟨_, rfl⟩

theorem itemOrTuple_comparison (h : comparison items = .ok v) : ItemOrTuple items v := by
  cases items with
  | nil => cases h
  | cons left rest =>
    simp only [comparison] at h
    cases hpairs : operations rest with
    | error cause =>
      rw [hpairs] at h
      cases h
    | ok pairs =>
      rw [hpairs] at h
      cases pairs with
      | nil =>
        cases h
        exact .inl mem_cons_self
      | cons pair others =>
        cases h
        exact .inr ⟨_, rfl⟩

theorem itemOrTuple_arithmetic {op : String} (h : arithmetic op items = .ok v) :
    ItemOrTuple items v := by
  unfold arithmetic at h
  split at h
  · cases h
  · cases h
    exact .inl mem_cons_self
  · rename_i left rest _
    cases hpairs : operations rest with
    | error cause =>
      rw [hpairs] at h
      cases h
    | ok pairs =>
      rw [hpairs] at h
      cases h
      exact .inr ⟨_, rfl⟩

theorem itemOrTuple_signed (h : signed items = .ok v) : ItemOrTuple items v := by
  unfold signed at h
  split at h
  · cases h
    exact .inl mem_cons_self
  · cases h
    exact .inr ⟨_, rfl⟩
  · cases h
    exact .inr ⟨_, rfl⟩
  · rename_i op operand _ _
    cases hop : symbolOf op with
    | error cause =>
      rw [hop] at h
      cases h
    | ok symbol =>
      rw [hop] at h
      cases h
      exact .inr ⟨_, rfl⟩
  · cases h

theorem tuple_of_choices {branches : List Value} {otherwise : Value}
    (h : Build.choices branches otherwise items = .ok v) : ∃ fields, v = .tuple fields := by
  fun_induction Build.choices branches otherwise items with
  | case1 => exact ⟨_, (Except.ok.inj h).symm⟩
  | case2 _ _ _ _ _ _ _ ih | case3 _ _ _ _ _ _ _ ih | case4 _ _ _ _ _ ih => exact ih h
  | case5 | case6 | case7 => cases h
  | case8 => rename_i ih; exact ih h

theorem tuple_of_call (name arguments : Value) (items : List Value) :
    ∃ fields, Build.call name arguments items = .tuple fields := by
  fun_induction Build.call name arguments items with
  | case1 => exact ⟨_, rfl⟩
  | case2 _ _ _ _ _ ih | case3 _ _ _ _ _ _ ih | case4 _ _ _ _ _ _ ih => exact ih

theorem plain_negation (h : AllPlain items) : Plain (negation items) := by
  unfold negation
  split
  · exact plain_null
  · exact h _ mem_cons_self
  · exact plain_tuple _

theorem item_of_literal (h : literal items = .ok v) : ItemOrTuple items v := by
  unfold literal at h
  split at h
  · cases h
  · cases h
  · cases h
    exact .inl mem_cons_self
  · cases h

theorem mem_of_layerInfo (h : layerInfo items = .ok v) : v ∈ items := by
  unfold layerInfo at h
  split at h
  · rename_i layer hlayer
    cases h
    exact mem_of_find?_eq_some hlayer
  · cases h

theorem mem_of_textContent (h : textContent items = .ok v) : v ∈ items := by
  unfold textContent at h
  split at h
  · rename_i text htext
    cases h
    exact mem_of_find?_eq_some htext
  · cases h

theorem tuple_of_coordinates (h : coordinates items = .ok v) :
    ∃ fields, v = .tuple fields := by
  unfold coordinates at h
  cases hreals : reals items with
  | error fault =>
    rw [hreals] at h
    cases h
  | ok found =>
    rw [hreals] at h
    match found, h with
    | [], h | [_], h => cases h
    | x :: y :: _, h =>
      cases h
      exact ⟨_, rfl⟩

theorem tuple_of_origoSizePair (h : origoSizePair items = .ok v) :
    ∃ fields, v = .tuple fields := by
  unfold origoSizePair at h
  cases hcorners : items.mapM cornerOf with
  | error fault =>
    rw [hcorners] at h
    cases h
  | ok corners =>
    simp only [hcorners, bind, Except.bind] at h
    split at h
    · cases h
      exact ⟨_, rfl⟩
    · cases h

theorem mem_of_lastItem (h : lastItem items = .ok v) : v ∈ items := by
  unfold lastItem at h
  split at h
  · rename_i last hlast
    cases h
    exact mem_of_getLast? hlast
  · cases h

theorem entry_of_layerLimit (h : layerLimit items = .ok v) :
    ∃ x, v = .dict [.text "seq_layers"] [.real x] := by
  unfold layerLimit at h
  simp only [bind, Except.bind] at h
  split at h
  · cases h
  · split at h
    · cases h
      exact ⟨_, rfl⟩
    · cases h

theorem entry_of_zoomLimits (h : zoomLimits items = .ok v) :
    ∃ fields, v = .dict [.text "ZoomLimits"] [.tuple fields] := by
  unfold zoomLimits at h
  split at h
  · cases h
    exact ⟨_, rfl⟩
  · cases h

theorem real_of_grid (h : grid items = .ok v) : ∃ x, v = .real x := by
  unfold grid at h
  simp only [bind, Except.bind] at h
  split at h
  · cases h
  · split at h
    · cases h
      exact ⟨_, rfl⟩
    · cases h

end Expressions

section Selections

variable {items : List Value} {p : Value → Bool}

theorem plain_firstOrNull (h : AllPlain items) : Plain (firstOrNull p items) := by
  unfold firstOrNull
  cases hfound : items.find? p with
  | none => exact plain_null
  | some v => exact h v (mem_of_find?_eq_some hfound)

theorem plain_lastOrNull (h : AllPlain items) : Plain (lastOrNull p items) := by
  unfold lastOrNull
  cases hfound : (items.filter p).getLast? with
  | none => exact plain_null
  | some v => exact h v (mem_filter.mp (mem_of_getLast? hfound)).1

theorem plain_lexemeText {v : Value} (h : Plain v) : Plain (lexemeText v) := by
  unfold lexemeText
  split
  · exact plain_text _
  · exact h

theorem plain_firstValue {refusal : List Value → Build.Refusal} {v : Value} (h : AllPlain items)
    (hv : firstValue refusal items = .ok v) : Plain v := by
  unfold firstValue at hv
  split at hv
  · rename_i first hfirst
    cases hv
    exact h _ (mem_of_mem_withoutTokens (mem_of_mem_head? hfirst))
  · cases hv

/-- The tail of an assigning part is never kept: it would have to be an unopened tree. -/
theorem lastOrNull_isEnableExpression (h : AllPlain items) :
    lastOrNull isEnableExpression items = .null := by
  have hnone : items.filter isEnableExpression = [] := by
    rw [filter_eq_nil_iff]
    intro v hv hmet
    have hplain := (h v hv).2
    unfold isEnableExpression Value.treeChildren? at hmet
    split at hmet
    · rename_i label ofRule children
      by_cases hlabel : label = "enable_expression"
      · subst hlabel
        rw [body, strangeTail] at hplain
        simp only [beq_self_eq_true, Bool.true_or, ↓reduceIte] at hplain
        split at hplain <;> simp at hplain
      · simp [hlabel] at hmet
    · simp at hmet
  rw [lastOrNull, hnone]
  rfl

theorem plain_assignment (h : AllPlain items) : Plain (interactAssignment items) := by
  have hvalues : AllPlain [nameOf items,
      lastOrNull (fun v => !v.isToken && !isEnableExpression v) items, .null] := by
    intro v hv
    simp only [mem_cons, not_mem_nil, or_false] at hv
    rcases hv with rfl | rfl | rfl
    · exact plain_lexemeText (plain_firstOrNull h)
    · exact plain_lastOrNull h
    · exact plain_null
  have hinner : Plain (Value.ofEntries [("name", nameOf items),
      ("value", lastOrNull (fun v => !v.isToken && !isEnableExpression v) items),
      ("tail", .null)]) :=
    plain_dict rfl rfl hvalues
  have hkey : ∀ inner : Value, (Value.dict [.text "assign"] [inner]).get? "enable" = none :=
    fun _ => rfl
  have hassign : ∀ inner : Value, (Value.dict [.text "assign"] [inner]).getOrNull "assign" =
      inner := fun _ => rfl
  rw [interactAssignment, lastOrNull_isEnableExpression h]
  generalize hdict : Value.ofEntries _ = inner at hinner ⊢
  have htail : assigned inner = [] := by
    subst hdict
    rfl
  have hgathered := hinner.1
  rw [gathered] at hgathered
  simp [Plain, gathered, Build.tails, tailsOf, Value.ofEntries, body, bodies, hkey, hassign,
    Value.hasKey, htail, hgathered, hinner.2]

theorem plain_flag (h : AllPlain items) : Plain (interactFlag items) := by
  refine plain_dict rfl rfl fun v hv => ?_
  simp only [map_cons, map_nil, mem_cons, not_mem_nil, or_false] at hv
  rcases hv with rfl | rfl | rfl
  · exact plain_lexemeText (plain_firstOrNull h)
  · exact plain_lexemeText (plain_lastOrNull h)
  · exact plain_lastOrNull h

end Selections

/-- The rules of expressions. -/
def operandNames : List String :=
  ["expression", "or_expression", "and_expression", "not_expression", "comparison_expression",
    "additive_expression", "multiplicative_expression", "unary_expression", "ternary_if",
    "function_call", "argument_list", "term", "value", "variable_name"]

/-- The rules whose trees stay as they are. -/
def unopenedNames : List String :=
  ["format_string", "value_fraction", "connection_node", "alignment", "color_properties",
    "outline_colour", "fill_colour", "assign_colour", "colour_assignments", "colour_style",
    "width", "coord_tail", "clip_values", "clip_value", "polygon_type", "interact_type_simple",
    "value_or_invar", "moduledef_opts", "moduledef_option"]

/-- The other rules of which no enabling part is a part. -/
def propertyNames : List String :=
  ["enable_expression", "invar", "invar_tail", "connected_variable", "coord_invar_tail",
    "layer_info", "text_content", "coordinates", "origo_size_pair", "coord_clippingbounds",
    "interact_value_line", "interact_flag", "interact_assign_variable", "clippingbounds",
    "two_layers", "zoomlimits", "grid"]

def plainNames : List String :=
  operandNames ++ unopenedNames ++ propertyNames

section Plain

variable {name : String} {rule : Rule} {items : List Value} {v : Value}
  (hrule : ruleNamed? name = some rule) (hitems : AllPlain items)
  (hv : constructed (labelOf rule.shape) items = .ok v)

include hrule hitems hv

theorem plain_operand (hname : name ∈ operandNames) : Plain v := by
  simp only [operandNames, mem_cons, not_mem_nil, or_false] at hname
  rcases hname with rfl | rfl | rfl | rfl | rfl | rfl | rfl | rfl | rfl | rfl | rfl | rfl | rfl |
    rfl <;> cases hrule
  · cases hv
    exact plain_tree rfl _ hitems
  · cases hv
    exact (itemOrTuple_chain "OR").plain hitems
  · cases hv
    exact (itemOrTuple_chain "AND").plain hitems
  · cases hv
    exact plain_negation hitems
  · exact (itemOrTuple_comparison hv).plain hitems
  · exact (itemOrTuple_arithmetic hv).plain hitems
  · exact (itemOrTuple_arithmetic hv).plain hitems
  · exact (itemOrTuple_signed hv).plain hitems
  · obtain ⟨fields, rfl⟩ := tuple_of_choices hv
    exact plain_tuple fields
  · cases hv
    obtain ⟨fields, hfields⟩ := tuple_of_call .null (.list []) items
    rw [functionCall, hfields]
    exact plain_tuple fields
  · cases hv
    exact plain_list fun w hw => hitems w (mem_of_mem_withoutTokens hw)
  · cases hv
    exact plain_tree rfl _ hitems
  · exact (item_of_literal hv).plain hitems
  · cases hv
    refine plain_dict rfl rfl fun w hw => ?_
    simp only [map_cons, map_nil, mem_cons, not_mem_nil, or_false] at hw
    rcases hw with rfl | rfl
    · exact plain_text _
    · split
      · exact plain_text _
      · exact plain_null

theorem plain_unopened (hname : name ∈ unopenedNames) : Plain v := by
  simp only [unopenedNames, mem_cons, not_mem_nil, or_false] at hname
  rcases hname with rfl | rfl | rfl | rfl | rfl | rfl | rfl | rfl | rfl | rfl | rfl | rfl | rfl |
    rfl | rfl | rfl | rfl | rfl | rfl <;> cases hrule <;> cases hv <;> exact plain_tree rfl _ hitems

theorem plain_property (hname : name ∈ propertyNames) : Plain v := by
  simp only [propertyNames, mem_cons, not_mem_nil, or_false] at hname
  rcases hname with rfl | rfl | rfl | rfl | rfl | rfl | rfl | rfl | rfl | rfl | rfl | rfl | rfl |
    rfl | rfl | rfl | rfl <;> cases hrule
  · exact plain_firstValue hitems hv
  · exact plain_firstValue hitems hv
  · exact plain_firstValue hitems hv
  · exact plain_firstValue hitems hv
  · exact @plain_firstValue items (fun _ => .noCoordinateTail) v hitems hv
  · exact hitems v (mem_of_layerInfo hv)
  · exact hitems v (mem_of_textContent hv)
  · obtain ⟨fields, rfl⟩ := tuple_of_coordinates hv
    exact plain_tuple fields
  · obtain ⟨fields, rfl⟩ := tuple_of_origoSizePair hv
    exact plain_tuple fields
  · cases hv
    exact plain_tree rfl _ hitems
  · cases hv
    exact plain_list hitems
  · cases hv
    exact plain_flag hitems
  · cases hv
    exact plain_assignment hitems
  · exact hitems v (mem_of_lastItem hv)
  · obtain ⟨x, rfl⟩ := entry_of_layerLimit hv
    exact plain_dict rfl rfl (by simpa [AllPlain] using plain_real x)
  · obtain ⟨fields, rfl⟩ := entry_of_zoomLimits hv
    exact plain_dict rfl rfl (by simpa [AllPlain] using plain_tuple fields)
  · obtain ⟨x, rfl⟩ := real_of_grid hv
    exact plain_real x

theorem plain_constructed (hname : name ∈ plainNames) : Plain v := by
  rcases mem_append.mp hname with hname | hname
  · rcases mem_append.mp hname with hname | hname
    · exact plain_operand hrule hitems hv hname
    · exact plain_unopened hrule hitems hv hname
  · exact plain_property hrule hitems hv hname

end Plain

end SattLine.Usage
