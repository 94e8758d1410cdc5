import SattLine.Proofs.Build.PlacePromise

/-!
The rules of pictures and of their objects keep their promises. Main statement: a picture is a
drawing that a text of the language describes, and the conditions of its parts are operands.
-/

namespace SattLine.Build

open List
open Grammar (Rule rules pictureRules graphRules interactionRules)
open Syntax (Tree IsOf lexemes lexemesIn labelOf ruleNamed?_eq_some_iff)
open Usage (Operand Condition Faultless IsDrawing isReference baseName mem_of_lastItem
  partSpec_kept shownIn drawingOf)

section Selection

variable {items : List Value} {v : Value}

theorem lastOrNull_cases (p : Value → Bool) (items : List Value) :
    lastOrNull p items = .null ∨ lastOrNull p items ∈ items ∧ p (lastOrNull p items) = true := by
  unfold lastOrNull
  cases hfound : (items.filter p).getLast? with
  | none => exact .inl rfl
  | some v => exact .inr (mem_filter.mp (mem_of_getLast? hfound))

theorem firstValue_of_mem (refusal : List Value → Refusal) (hv : v ∈ items)
    (htoken : v.isToken = false) :
    ∃ w ∈ withoutTokens items, firstValue refusal items = .ok w := by
  unfold firstValue
  cases hfound : (withoutTokens items).head? with
  | none =>
    have hnone := List.head?_eq_none_iff.mp hfound
    have hmem : v ∈ withoutTokens items := mem_filter.mpr ⟨hv, by simp [htoken]⟩
    rw [hnone] at hmem
    cases hmem
  | some w => exact ⟨w, mem_of_mem_head? hfound, rfl⟩

theorem firstValue_single (refusal : List Value → Refusal) (htoken : v.isToken = false) :
    firstValue refusal [v] = .ok v := by
  rw [firstValue, withoutTokens, filter_cons_of_pos (by simp [htoken])]
  rfl

theorem firstValue_keyword (refusal : List Value → Refusal) (kind text : String)
    (htoken : v.isToken = false) : firstValue refusal [.token kind text, v] = .ok v := by
  rw [firstValue, withoutTokens, filter_cons_of_neg (by simp [Value.isToken]),
    filter_cons_of_pos (by simp [htoken])]
  rfl

/-- An operand, or a keyword before it. -/
def IsTerm (v : Value) : Prop :=
  v.isToken = true ∨ Operand v

theorem isEnabling_enabling (h : ∀ v ∈ items, IsTerm v) : IsEnabling (enabling items) := by
  refine ⟨_, _, rfl, ?_⟩
  rcases lastOrNull_cases _ items with hnull | ⟨hmem, hchosen⟩
  · exact .inl hnull
  · refine .inr ((h _ hmem).resolve_left ?_)
    simp only [Bool.and_eq_true, Bool.not_eq_true'] at hchosen
    simp [hchosen.2]

theorem fine_enabling (h : AllFine items) : Fine (enabling items) :=
  .dict ⟨none, rfl⟩ (AllFine.cons (.plain rfl) (.cons (h.lastOrNull _) .nil))

theorem isArgument_of_isEnabling (h : IsEnabling v) : IsArgument v := by
  obtain ⟨b, condition, rfl, hcondition⟩ := h
  exact fun _ => hcondition

end Selection

section Numbered

variable {label : String} {tree : Tree} {v : Value} {lexeme : Syntax.Token}

theorem Numbered.node (h : Numbered tree v) : Numbered (.node label [tree]) v := by
  intro n
  simpa [lexemes, lexemesIn] using h n

theorem Numbered.node_keyword (hkind : lexeme.kind ∈ keywordKinds) (h : Numbered tree v) :
    Numbered (.node label [.leaf lexeme, tree]) v := by
  intro n
  have hother := ne_signedInt_of_keyword hkind
  simp [lexemes, lexemesIn, h n, hother]

theorem numbered_of_none (htree : ∀ lexeme ∈ lexemes tree, lexeme.kind ≠ "SIGNED_INT")
    (hv : ∀ n, v ≠ .int n) : Numbered tree v := by
  intro n
  refine iff_of_false (hv n) ?_
  rintro ⟨lexeme, hlexeme, hkind, -⟩
  exact htree lexeme hlexeme hkind

end Numbered

section Parts

variable {row : List Grammar.Part} {alternatives : List (List Grammar.Part)} {inner : List Tree}
  {items : List Value} {v : Value}

/-- A part of a drawing that can be entered: no options, and no graphical objects with texts of the
wrong shape. -/
structure Drawable (v : Value) : Prop where
  not_dict : ∀ keys values, v ≠ .dict keys values
  shown : ∀ first rest, v = .list (first :: rest) → first.isElement .graphObject = true →
    ∀ g ∈ first :: rest, Faultless (shownIn g)

theorem addToDefinition_made {area : Value} {graphs interactions : List Value} (hv : Drawable v)
    (hgraphs : ∀ g ∈ graphs, Faultless (shownIn g)) :
    ∃ area' graphs' interactions', addToDefinition (drawingOf area graphs interactions) v =
      .ok (drawingOf area' graphs' interactions') ∧ ∀ g ∈ graphs', Faultless (shownIn g) := by
  unfold addToDefinition
  split
  · next first rest =>
    by_cases hgraph : first.isElement .graphObject = true
    · rw [if_pos hgraph]
      exact ⟨area, first :: rest, interactions, rfl, hv.shown first rest rfl hgraph⟩
    · rw [if_neg hgraph]
      by_cases hinteract : first.isElement .interactObject = true
      · rw [if_pos hinteract]
        exact ⟨area, graphs, first :: rest, rfl, hgraphs⟩
      · rw [if_neg hinteract]
        exact ⟨area, graphs, interactions, rfl, hgraphs⟩
  · next keys values => exact absurd rfl (hv.not_dict keys values)
  · split
    · exact ⟨v, graphs, interactions, rfl, hgraphs⟩
    · exact ⟨area, graphs, interactions, rfl, hgraphs⟩

theorem moduleDef_made (h : ∀ v ∈ items, Drawable v) :
    ∃ area graphs interactions, moduleDef items = .ok (drawingOf area graphs interactions) ∧
      ∀ g ∈ graphs, Faultless (shownIn g) := by
  have hfold : ∀ area graphs interactions, (∀ g ∈ graphs, Faultless (shownIn g)) →
      ∃ area' graphs' interactions', items.foldlM addToDefinition
        (drawingOf area graphs interactions) = .ok (drawingOf area' graphs' interactions') ∧
          ∀ g ∈ graphs', Faultless (shownIn g) := by
    induction items with
    | nil => exact fun area graphs interactions hgraphs => ⟨area, graphs, interactions, rfl, hgraphs⟩
    | cons v rest ih =>
      intro area graphs interactions hgraphs
      obtain ⟨hv, hrest⟩ := forall_mem_cons.mp h
      obtain ⟨area₁, graphs₁, interactions₁, hfirst, hgraphs₁⟩ :=
        @addToDefinition_made _ area graphs interactions hv hgraphs
      rw [foldlM_cons, hfirst]
      exact ih hrest area₁ graphs₁ interactions₁ hgraphs₁
  exact hfold .null [] [] (by simp)

/-- The rules of the parts of a picture. -/
def definitionNames : List String :=
  ["clippingbounds", "moduledef_opts", "graph_objects", "interact_objects"]

variable {name : String} {tree : Tree}

theorem Built.drawable (h : Built name tree v) (hname : name ∈ definitionNames) : Drawable v := by
  have hpart := partSpec_kept.holds h.isOf h.value
  simp only [definitionNames, mem_cons, not_mem_nil, or_false] at hname
  rcases hname with rfl | rfl | rfl | rfl
  · have harea := hpart.area (by repeat constructor)
    refine ⟨?_, ?_⟩
    · rintro keys values rfl
      cases harea
    · rintro first rest rfl
      cases harea
  · obtain ⟨_, rfl⟩ := hpart.unopened (by repeat constructor)
    exact ⟨by simp, by simp⟩
  · obtain ⟨objects, rfl, hobjects⟩ := hpart.graphs rfl
    refine ⟨by simp, ?_⟩
    rintro first rest heq - g hg
    cases heq
    obtain ⟨fields, rfl, hsound⟩ := (h.fine.of_list g hg).of_isElement (hobjects.isElement g hg)
    exact hsound
  · obtain ⟨objects, rfl, hobjects⟩ := hpart.interactions rfl
    refine ⟨by simp, ?_⟩
    rintro first rest heq hgraph
    cases heq
    have hinteract := hobjects.isElement first mem_cons_self
    cases first with
    | element kind fields =>
      obtain rfl : kind = .interactObject := by simpa [Value.isElement] using hinteract
      cases hgraph
    | _ => cases hinteract

theorem Built.isGraph (h : Built name tree v) (hname : name ∈ Usage.graphNames) :
    v.isElement .graphObject = true :=
  ((partSpec_kept.holds h.isOf h.value).graph hname).isElement

theorem Parts.of_rule (h : Parts [.rule name] inner items) :
    ∃ tree v, inner = [tree] ∧ items = [v] ∧ Built name tree v := by
  obtain ⟨tree, v, rfl, rfl, hv⟩ := h.builds.of_lone
  exact ⟨tree, v, rfl, rfl, hv⟩

theorem Parts.drawn (h : Parts row inner items) (hrow : row ∈ alternatives)
    (hmem : (⟨"moduledef", .node "moduledef", alternatives⟩ : Rule) ∈ rules)
    (hkinds : Listed keywordKinds (pickIn kindHere alternatives))
    (hnames : Listed definitionNames (pickIn nameHere alternatives)) :
    ∃ v, moduleDef items = .ok v ∧ Fine v := by
  have hparts : ∀ v ∈ items, Drawable v := by
    refine h.forall_items hrow ?_ fun _ hname _ _ hv => hv.drawable (hnames.mem hname)
    intro lexeme v hkind hv
    cases token_of_leaf (hkinds.mem hkind) hv
    exact ⟨by simp, by simp⟩
  obtain ⟨area, graphs, interactions, hmade, hshown⟩ := moduleDef_made hparts
  refine ⟨_, hmade, .element ⟨⟨.node "moduledef" inner, ?_, ?_, ?_⟩, ?_⟩⟩
  · exact .of_row (ruleNamed?_eq_some_iff.mpr ⟨hmem, rfl⟩) hrow h.forms rfl
  · simpa [lexemes] using h.lexed
  · refine valueOf_node_eq_ok.mpr ⟨items, h.values, ?_⟩
    rw [constructed_of_mem (by repeat constructor)]
    exact hmade
  · exact Usage.faultless_flatMap.mpr hshown

theorem Parts.cornered (h : Parts [.rule "coordinates", .rule "coordinates"] inner items) :
    ∃ v, origoSizePair items = .ok v ∧ Fine v ∧ untextual (.node "origo_size_pair" inner) v := by
  obtain ⟨_, _, _, _, rfl, rfl, hfirst, hrest⟩ := h.builds.of_rule
  obtain ⟨_, _, rfl, rfl, hsecond⟩ := hrest.of_lone
  obtain ⟨x, y, rfl⟩ := hfirst.keeps (valued IsPlace) (by repeat constructor)
  obtain ⟨z, w, rfl⟩ := hsecond.keeps (valued IsPlace) (by repeat constructor)
  exact ⟨_, rfl, .plain rfl, by simp [textOf?], rfl, rfl⟩

theorem Parts.connectedTail
    (h : Parts [.mark "COLON", .oneOf [[.token "INVAR_PREFIX"], [.token "OUTVAR_PREFIX"]],
      .rule "connected_variable"] inner items) (refusal : List Value → Refusal) :
    ∃ v, firstValue refusal items = .ok v ∧ Fine v ∧ ofTail (.node "coord_invar_tail" inner) v := by
  obtain ⟨lexeme, _, _, rfl, rfl, hkind, hrest⟩ :=
    h.builds.of_mark.of_keywords ["INVAR_PREFIX", "OUTVAR_PREFIX"] (by repeat constructor)
  obtain ⟨_, v, rfl, rfl, hv⟩ := hrest.of_lone
  obtain ⟨hoperand, hnumbered⟩ := hv.keeps ofConnected (by repeat constructor)
  exact ⟨v, firstValue_keyword refusal _ _ hoperand.isToken, hv.fine,
    .inl ⟨by simp [hasLabel], hnumbered.node_keyword hkind⟩⟩

theorem Built.connected (h : Built name tree v) (hname : name = "value" ∨ name = "variable_name") :
    Operand v ∧ Numbered tree v := by
  rcases hname with rfl | rfl
  · obtain ⟨hliteral, hnumbered⟩ := h.keeps ofLiteral (by repeat constructor)
    exact ⟨hliteral.operand, hnumbered⟩
  · obtain ⟨href, hnumbered⟩ := h.keeps ofReference (by repeat constructor)
    exact ⟨href.operand, hnumbered⟩

theorem Parts.connected (h : Parts [.rule name] inner items)
    (hname : name = "value" ∨ name = "variable_name") (refusal : List Value → Refusal) :
    ∃ v, firstValue refusal items = .ok v ∧ Fine v ∧
      ofConnected (.node "connected_variable" inner) v := by
  obtain ⟨tree, v, rfl, rfl, hv⟩ := h.of_rule
  obtain ⟨hoperand, hnumbered⟩ := hv.connected hname
  exact ⟨v, firstValue_single refusal hoperand.isToken, hv.fine, hoperand, hnumbered.node⟩

theorem fine_variableName (items : List Value) : Fine (variableName items) :=
  (isReference_variableName items).fine

/-- The lexemes of a row of names and keywords are no whole numbers. -/
theorem Parts.without_integers (h : Parts row inner items) (hrow : row ∈ alternatives)
    (hkinds : Listed ("NAME" :: keywordKinds) (pickIn kindHere alternatives))
    (hnames : Listed [] (pickIn nameHere alternatives)) :
    ∀ lexeme ∈ lexemesIn inner, lexeme.kind ≠ "SIGNED_INT" := by
  have heach : List.Forall₂ (fun tree _ => ∀ lexeme ∈ lexemes tree, lexeme.kind ≠ "SIGNED_INT")
      inner items := by
    refine h.each hrow ?_ fun name hname => nomatch hnames.mem hname
    intro lexeme v hkind _ other hother
    cases mem_singleton.mp (by simpa [lexemes] using hother)
    rcases mem_cons.mp (hkinds.mem hkind) with hname | hkeyword
    · rw [hname]
      decide
    · exact ne_signedInt_of_keyword hkeyword
  clear h
  induction heach with
  | nil => simp [lexemesIn]
  | cons hfirst _ ih =>
    rw [lexemesIn]
    exact forall_mem_append.mpr ⟨hfirst, ih⟩

theorem Parts.referring (h : Parts row inner items) (hrow : row ∈ alternatives)
    (hkinds : Listed ("NAME" :: keywordKinds) (pickIn kindHere alternatives))
    (hnames : Listed [] (pickIn nameHere alternatives)) (label : String) :
    ofReference (.node label inner) (variableName items) := by
  refine ⟨isReference_variableName items, numbered_of_none ?_ fun n hn => by cases hn⟩
  simpa [lexemes] using h.without_integers hrow hkinds hnames

theorem Parts.limits
    (h : Parts [.token "ZOOMLIMITS", .mark "EQUAL", .token "REAL", .token "REAL"] inner items) :
    ∃ v, zoomLimits items = .ok v ∧ Fine v ∧ IsArgument v := by
  obtain ⟨_, _, _, _, rfl, rfl, -, -, hrest⟩ := h.builds.of_token
  obtain ⟨_, low, _, _, rfl, rfl, -, -, hrest⟩ := hrest.of_mark.of_token
  obtain ⟨_, high, _, _, rfl, rfl, -, -, hnil⟩ := hrest.of_token
  cases hnil
  exact ⟨_, rfl, .dict ⟨none, rfl⟩ (AllFine.cons (.plain rfl) .nil), fun henable => nomatch henable⟩

theorem Parts.layered
    (h : Parts [.token "TWO_LAYERS", .token "LAYERLIMIT", .mark "EQUAL", .token "REAL"] inner
      items) :
    ∃ v, layerLimit items = .ok v ∧ Fine v := by
  obtain ⟨first, _, _, _, rfl, rfl, hkind, hv, hrest⟩ := h.builds.of_token
  obtain ⟨second, _, _, _, rfl, rfl, hkind₁, hv₁, hrest₁⟩ := hrest.of_token
  obtain ⟨_, _, _, _, rfl, rfl, hkind₂, hv₂, hnil⟩ := hrest₁.of_mark.of_token
  cases hnil
  cases token_of_leaf (by rw [hkind]; repeat constructor) hv
  cases token_of_leaf (by rw [hkind₁]; repeat constructor) hv₁
  obtain ⟨x, rfl⟩ := real_of_leaf hkind₂ hv₂
  refine ⟨Value.ofEntries [("seq_layers", .real x)], ?_,
    .dict ⟨none, rfl⟩ (AllFine.cons (.plain rfl) .nil)⟩
  simp only [layerLimit, List.mapM_cons, List.mapM_nil, pure_bind, Value.isNumber, Value.toDouble, ↓reduceIte]
  cases Number.readDouble? first.text <;> cases Number.readDouble? second.text <;> rfl

theorem Parts.gridded (h : Parts [.token "GRID", .mark "EQUAL", .token "REAL"] inner items) :
    ∃ v, grid items = .ok v ∧ Fine v := by
  obtain ⟨_, _, _, _, rfl, rfl, hkind, hv, hrest⟩ := h.builds.of_token
  obtain ⟨_, _, _, _, rfl, rfl, hkind₁, hv₁, hnil⟩ := hrest.of_mark.of_token
  cases hnil
  cases token_of_leaf (by rw [hkind]; repeat constructor) hv
  obtain ⟨x, rfl⟩ := real_of_leaf hkind₁ hv₁
  exact ⟨.real x, rfl, .plain rfl⟩

theorem Parts.graphed (h : Parts [.rule name] inner items) (hname : name ∈ Usage.graphNames) :
    ∃ v, graphObject items = .ok v ∧ Fine v := by
  obtain ⟨tree, v, rfl, rfl, hv⟩ := h.of_rule
  have hkind := hv.isGraph hname
  cases v with
  | element kind fields =>
    obtain rfl : kind = .graphObject := by simpa [Value.isElement] using hkind
    exact ⟨_, rfl, hv.fine⟩
  | _ => cases hkind

theorem Parts.worded {kind : String} (h : Parts [.token kind] inner items)
    (hkind : kind = "STRING" ∨ kind = "STRING_CRLF") :
    ∃ v, textContent items = .ok v ∧ Fine v ∧ ofText (.node "text_content" inner) v := by
  obtain ⟨lexeme, _, _, _, rfl, rfl, rfl, hv, hnil⟩ := h.builds.of_token
  cases hnil
  cases text_of_string hkind hv
  exact ⟨_, rfl, .plain rfl, lexeme, rfl, rfl⟩

theorem Parts.enabled (h : Parts row inner items) (hrow : row ∈ alternatives)
    (hkinds : Listed ("BOOL" :: keywordKinds) (pickIn kindHere alternatives))
    (hnames : Listed operandNames (pickIn nameHere alternatives)) : ∀ v ∈ items, IsTerm v := by
  refine h.forall_items hrow ?_ fun _ hname _ _ hv => .inr (hv.operand (hnames.mem hname))
  intro lexeme v hkind hv
  rcases mem_cons.mp (hkinds.mem hkind) with hbool | hkeyword
  · obtain ⟨b, rfl⟩ := bool_of_leaf hbool hv
    exact .inr (.bool b)
  · rw [token_of_leaf hkeyword hv]
    exact .inl rfl

theorem Fine.lexemeText (h : Fine v) : Fine (lexemeText v) := by
  cases v with
  | token kind s => exact .plain rfl
  | _ => exact h

theorem AllFine.nameOf (h : AllFine items) : Fine (nameOf items) :=
  (h.firstOrNull _).lexemeText

theorem AllFine.withoutFirst (h : AllFine items) (p : Value → Bool) :
    AllFine (withoutFirst p items) := by
  induction items with
  | nil => exact .nil
  | cons v rest ih =>
    obtain ⟨hv, hrest⟩ := forall_mem_cons.mp h
    rw [Build.withoutFirst]
    split
    · exact hrest
    · exact .cons hv (ih hrest)

theorem fine_procedureCall (h : AllFine items) : Fine (procedureCall items) :=
  .dict ⟨none, rfl⟩ (AllFine.cons (.dict ⟨none, rfl⟩
    (AllFine.cons h.nameOf (.cons (.list (h.withoutFirst _)) .nil))) .nil)

theorem fine_interactAssignment (h : AllFine items) : Fine (interactAssignment items) :=
  .dict ⟨none, rfl⟩ (AllFine.cons (.dict ⟨none, rfl⟩
    (AllFine.cons h.nameOf (.cons (h.lastOrNull _) (.cons (h.lastOrNull _) .nil)))) .nil)

theorem fine_interactFlag (h : AllFine items) : Fine (interactFlag items) :=
  .dict ⟨none, rfl⟩ (AllFine.cons h.nameOf (.cons (h.lastOrNull _).lexemeText
    (.cons (h.lastOrNull _) .nil)))

theorem fine_interactObjects (h : AllFine items) : Fine (interactObjects items) := by
  refine .list (AllFine.flatMap fun v hv => ?_)
  split
  · exact .cons (h v hv) .nil
  · exact (h v hv).children?.filter _

/-- What stands behind a connection prefix. -/
theorem Parts.tailed
    (h : Parts [.mark "COLON", .oneOf [[.token "INVAR_PREFIX"], [.token "OUTVAR_PREFIX"]],
      .oneOf [[.rule "connected_variable"], [.token "NAME", .some1 [[.rule "value"]]]]] inner items)
    (refusal : List Value → Refusal) : ∃ v, firstValue refusal items = .ok v ∧ Fine v := by
  have hvalue : ∃ v ∈ items, v.isToken = false := by
    obtain ⟨lexeme, _, _, rfl, rfl, -, hrest⟩ :=
      h.builds.of_mark.of_keywords ["INVAR_PREFIX", "OUTVAR_PREFIX"] (by repeat constructor)
    obtain ⟨_, hrow, _, _, _, _, rfl, rfl, hfirst, -⟩ := hrest.of_oneOf
    rcases mem_cons.mp hrow with rfl | hrow
    · obtain ⟨_, v, _, _, rfl, rfl, hv, -⟩ := hfirst.of_rule
      exact ⟨v, by simp, (hv.operand (by repeat constructor)).isToken⟩
    · cases mem_singleton.mp hrow
      obtain ⟨_, text, _, _, rfl, rfl, -⟩ := hfirst.of_name
      exact ⟨.text text, by simp, rfl⟩
  obtain ⟨v, hv, htoken⟩ := hvalue
  obtain ⟨w, hw, hfirst⟩ := firstValue_of_mem refusal hv htoken
  exact ⟨w, hfirst, h.fine w (mem_of_mem_filter hw)⟩

end Parts

theorem pictureRules_kept : List.Forall₂ KeptBy pictureRules picturePromises := by
  refine .cons ⟨rfl, fun hmem => ?drawing⟩ <| .cons ⟨rfl, fun _ => ?bounds⟩ <|
    .cons ⟨rfl, fun _ => ?corners⟩ <| .cons ⟨rfl, fun _ => ?place⟩ <| .cons ⟨rfl, fun _ => ?tail⟩ <|
    .cons ⟨rfl, fun _ => ?connectedTail⟩ ?from_clipping
  case' from_clipping =>
    refine .cons ⟨rfl, fun _ => ?clippingTail⟩ <| .cons (keptBy_tree ?_) <| .cons (keptBy_tree ?_) <|
      .cons (keptBy_tree ?_) <| .cons (keptBy_tree ?_) <| .cons ⟨rfl, fun _ => ?layers⟩ ?from_objects
  case' from_objects =>
    refine .cons ⟨rfl, fun _ => ?limits⟩ <| .cons ⟨rfl, fun _ => ?grid⟩ <|
      .cons ⟨rfl, fun _ => ?graphs⟩ <| .cons ⟨rfl, fun _ => ?graph⟩ <| .cons (keptBy_tree ?_) <|
      .cons ⟨rfl, fun hmem => ?layer⟩ ?from_enabling
  case' from_enabling =>
    refine .cons ⟨rfl, fun _ => ?enable⟩ <| .cons ⟨rfl, fun _ => ?condition⟩ <|
      .cons ⟨rfl, fun _ => ?invar⟩ <| .cons ⟨rfl, fun _ => ?reference⟩ <| .cons (keptBy_tree ?_) <|
      .cons ⟨rfl, fun _ => ?connected⟩ ?from_signs
  case from_signs =>
    refine .cons (keptBy_tree ?_) <| .cons (keptBy_tree ?_) <| .cons (keptBy_tree ?_) <|
      .cons (keptBy_tree ?_) <| .cons (keptBy_tree ?_) <| .cons (keptBy_tree ?_) <|
      .cons (keptBy_tree ?_) <| .cons (keptBy_tree ?_) <| .cons (keptBy_tree ?_) <|
      .cons (keptBy_tree ?_) .nil
    all_goals repeat constructor
  case drawing =>
    refine .of_made (by repeat constructor) fun hrow hparts => ?_
    obtain ⟨v, hv, hfine⟩ := hparts.drawn hrow hmem (by repeat constructor) (by repeat constructor)
    exact ⟨v, hv, hfine, trivial⟩
  case bounds =>
    refine .of_row (by repeat constructor) fun hparts => ?_
    obtain ⟨_, _, _, _, rfl, rfl, -, -, hrest⟩ := hparts.builds.of_token
    obtain ⟨_, v, rfl, rfl, hv⟩ := hrest.of_mark.of_lone
    exact ⟨v, rfl, hv.fine, trivial⟩
  case corners => exact .of_row (by repeat constructor) fun hparts => hparts.cornered
  case place =>
    exact coordinates_kept ⟨by repeat constructor, by repeat constructor, by simp [isReal]⟩
  case tail =>
    refine .of_single (by repeat constructor) fun hrow hparts => ?_
    rcases mem_cons.mp hrow with rfl | hrow
    · obtain ⟨tree, v, rfl, rfl, hv⟩ := hparts.of_rule
      exact ⟨tree, v, rfl, rfl, hv.keeps ofTail (by repeat constructor)⟩
    · cases mem_singleton.mp hrow
      obtain ⟨tree, v, rfl, rfl, hv⟩ := hparts.of_rule
      exact ⟨tree, v, rfl, rfl, hv.keeps ofTail (by repeat constructor)⟩
  case connectedTail => exact .of_row (by repeat constructor) fun hparts => hparts.connectedTail _
  case clippingTail =>
    exact .of_made (by repeat constructor) fun _ hparts => ⟨_, rfl, .tree hparts.fine,
      .inr ⟨by simp [hasLabel], rfl⟩⟩
  case layers => exact .of_fine_row (by repeat constructor) fun hparts => hparts.layered
  case limits => exact .of_row (by repeat constructor) fun hparts => hparts.limits
  case grid => exact .of_fine_row (by repeat constructor) fun hparts => hparts.gridded
  case graphs => exact .of_fine (by repeat constructor) fun _ h => .list (h.filter _)
  case graph =>
    refine .of_made (by repeat constructor) fun {row inner items} hrow hparts => ?_
    have hone : ∃ name ∈ Usage.graphNames, row = [.rule name] := by
      simp only [mem_cons, not_mem_nil, or_false] at hrow
      rcases hrow with rfl | rfl | rfl | rfl | rfl | rfl | rfl <;>
        exact ⟨_, by repeat constructor, rfl⟩
    obtain ⟨name, hname, rfl⟩ := hone
    obtain ⟨v, hv, hfine⟩ := hparts.graphed hname
    exact ⟨v, hv, hfine, trivial⟩
  case layer =>
    refine .of_form hmem (by decide) fun hform => ?_
    obtain ⟨n, rfl⟩ := hform
    exact ⟨.plain rfl, rfl⟩
  case enable =>
    exact .of_made (by repeat constructor) fun hrow hparts => ⟨_, rfl, fine_enabling hparts.fine,
      isEnabling_enabling (hparts.enabled hrow (by repeat constructor) (by repeat constructor))⟩
  case condition =>
    refine .of_row (by repeat constructor) fun hparts => ?_
    obtain ⟨_, v, _, _, rfl, rfl, hv, hnil⟩ := hparts.builds.of_mark.of_mark.of_rule
    obtain ⟨rfl, rfl⟩ := hnil.of_mark.of_nil
    have hoperand := hv.operand (by repeat constructor)
    exact ⟨v, firstValue_single _ hoperand.isToken, hv.fine, hoperand⟩
  case invar =>
    refine .of_row (by repeat constructor) fun hparts => ?_
    obtain ⟨_, symbol, _, _, rfl, rfl, hrest⟩ := hparts.builds.of_mark.of_keyword fun _ => rfl
    obtain ⟨_, v, rfl, rfl, hv⟩ := hrest.of_lone
    have hoperand := hv.operand (by repeat constructor)
    exact ⟨v, firstValue_keyword _ _ _ hoperand.isToken, hv.fine, hoperand⟩
  case reference =>
    exact .of_made (by repeat constructor) fun hrow hparts => ⟨_, rfl, fine_variableName _,
      hparts.referring hrow (by repeat constructor) (by repeat constructor) _⟩
  case connected =>
    refine .of_made (by repeat constructor) fun hrow hparts => ?_
    rcases mem_cons.mp hrow with rfl | hrow
    · exact hparts.connected (.inl rfl) _
    · cases mem_singleton.mp hrow
      exact hparts.connected (.inr rfl) _
  all_goals repeat constructor

theorem graphRules_kept : List.Forall₂ KeptBy graphRules graphPromises := by
  refine .cons ⟨rfl, fun _ => ?object⟩ <| .cons ⟨rfl, fun _ => ?content⟩ <|
    .cons ⟨rfl, fun _ => ?rectangle⟩ <| .cons ⟨rfl, fun _ => ?line⟩ <|
    .cons ⟨rfl, fun _ => ?oval⟩ <| .cons ⟨rfl, fun _ => ?polygon⟩ <| .cons (keptBy_tree (by repeat constructor)) <|
    .cons ⟨rfl, fun _ => ?segment⟩ <| .cons ⟨rfl, fun _ => ?composite⟩ .nil
  case object => exact textObject_kept (by repeat constructor) (by repeat constructor)
  case content =>
    refine .of_made (by repeat constructor) fun hrow hparts => ?_
    rcases mem_cons.mp hrow with rfl | hrow
    · exact hparts.worded (.inr rfl)
    · cases mem_singleton.mp hrow
      exact hparts.worded (.inl rfl)
  case polygon | composite =>
    exact .of_fine (by repeat constructor) fun items _ => fine_plainObject _ items
  all_goals exact .of_fine (by repeat constructor) fun items _ => fine_areaObject _ items

theorem interactionRules_kept : List.Forall₂ KeptBy interactionRules interactionPromises := by
  refine .cons ⟨rfl, fun _ => ?objects⟩ <| .cons (keptBy_tree ?_) <|
    .cons ⟨rfl, fun _ => ?button⟩ <| .cons ⟨rfl, fun _ => ?call⟩ <| .cons (keptBy_tree ?_) <|
    .cons (keptBy_tree ?_) <| .cons (keptBy_tree ?_) <| .cons ⟨rfl, fun _ => ?interaction⟩ <|
    .cons (keptBy_tree ?_) <| .cons (keptBy_tree ?_) <| .cons (keptBy_tree ?_) <|
    .cons ⟨rfl, fun _ => ?line⟩ <| .cons (keptBy_tree ?_) <| .cons ⟨rfl, fun _ => ?tail⟩ <|
    .cons ⟨rfl, fun _ => ?flag⟩ <| .cons ⟨rfl, fun _ => ?assignment⟩ .nil
  case objects => exact .of_fine (by repeat constructor) fun _ => fine_interactObjects
  case call => exact .of_fine (by repeat constructor) fun _ => fine_procedureCall
  case button | interaction =>
    refine .of_fine (by repeat constructor) fun _ _ => ?_
    exact .element trivial
  case line => exact .of_fine (by repeat constructor) fun _ h => .list h
  case tail => exact .of_fine_row (by repeat constructor) fun hparts => hparts.tailed _
  case flag => exact .of_fine (by repeat constructor) fun _ => fine_interactFlag
  case assignment =>
    exact .of_made (by repeat constructor) fun _ hparts => ⟨_, rfl,
      fine_interactAssignment hparts.fine, fun henable => nomatch henable⟩
  all_goals repeat constructor

end SattLine.Build
