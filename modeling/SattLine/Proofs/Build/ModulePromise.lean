import SattLine.Proofs.Build.PicturePromise

/-!
The rules of programs and modules keep their promises. Main statement: a base picture, a module or
an invocation that is put together from fine parts can be read, and its connections have names.
-/

namespace SattLine.Build

open List
open Declaring (Reads)
open Grammar (Rule rules moduleRules)
open Number (Double)
open Syntax (Tree labelOf lexemes lexemesIn)
open Usage (Faultless Legible Condition WellBodied baseName)

section Bodies

variable {body : List Value} {v group : Value}

variable {items : List Value}

theorem firstOrNull_induction {P : Value → Prop} (hnull : P .null) (h : ∀ v ∈ items, P v)
    (p : Value → Bool) : P (firstOrNull p items) := by
  unfold firstOrNull
  cases hfound : items.find? p with
  | none => exact hnull
  | some v => exact h v (mem_of_find?_eq_some hfound)

theorem Fine.readsModule (h : Fine v) (hmodule : v.isModule = true) : v.ReadsModule := by
  simp only [Value.isModule, Bool.or_eq_true] at hmodule
  rcases hmodule with (hkind | hkind) | hkind
  all_goals
    obtain ⟨fields, rfl, hsound⟩ := h.of_isElement hkind
    exact hsound

theorem AllFine.submodulesUnder (h : AllFine body) :
    ∀ v ∈ submodulesUnder body, v.ReadsModule := by
  intro v hv
  obtain ⟨given, hgiven, hv⟩ := mem_flatMap.mp hv
  have hfine := h.allChildren "SUBMODULES" given hgiven
  split at hv
  · obtain ⟨hmem, hmodule⟩ := mem_filter.mp hv
    exact (hfine.of_list v hmem).readsModule hmodule
  · split at hv
    · next hmodule =>
      cases mem_singleton.mp hv
      exact hfine.readsModule hmodule
    · cases hv

theorem AllFine.soundUnder (h : AllFine body) (label : String) (kind : Element) :
    ∀ v ∈ Build.elementsUnder label kind body,
      ∃ fields, v = .element kind fields ∧ SoundElement kind fields := by
  intro v hv
  have hkind : v.isElement kind = true := by
    obtain ⟨_, _, hv⟩ := mem_flatMap.mp hv
    exact (mem_filter.mp hv).2
  exact (h.elementsUnder label kind v hv).of_isElement hkind

theorem AllFine.variablesUnder (h : AllFine body) (label : String) :
    ∀ v ∈ Build.elementsUnder label .variable body, Reads v.toVariable fun _ => True := by
  intro v hv
  obtain ⟨fields, rfl, hsound⟩ := h.soundUnder label .variable v hv
  exact hsound

theorem AllFine.mappingsUnder (h : AllFine body) (label : String) :
    ∀ v ∈ Build.elementsUnder label .parameterMapping body,
      ∃ m, v.toMapping = .ok m ∧ Legible m := by
  intro v hv
  obtain ⟨fields, rfl, hsound⟩ := h.soundUnder label .parameterMapping v hv
  exact hsound

theorem AllFine.wellBodied (h : AllFine body) :
    WellBodied (Build.lastElement .moduleDef body) (Build.lastElement .moduleCode body) where
  definition := by
    rcases h.lastElement .moduleDef with hnull | ⟨fields, hfields, hsound⟩
    · exact .inl hnull
    · rw [hfields]
      exact .inr hsound
  code := by
    rcases h.lastElement .moduleCode with hnull | ⟨fields, hfields, hsound⟩
    · rw [hnull]
      exact Usage.faultless_nil
    · rw [hfields]
      exact hsound

theorem AllFine.scanGroupOf (h : AllFine body) : Fine (Build.scanGroupOf body) :=
  h.lastOrNull _

/-- Entering the scan group of a body leaves an invocation one. -/
theorem isHeader_withScanGroup (h : v.IsHeader) (hgroup : Fine group) :
    (withScanGroup group v).IsHeader := by
  unfold withScanGroup
  split
  · exact h
  · obtain ⟨name, coord, layer, enable, zoomLimits, zoomable, condition, connection, isGlobal, rfl,
      hname, hcondition, -⟩ := h
    exact ⟨name, coord, layer, enable, zoomLimits, zoomable, condition, _, _, rfl, hname,
      hcondition, (hgroup.getOrNull "groupconn").baseName⟩

theorem mem_flattenAll (hv : v ∈ items) (hwhole : flatten v = [v]) : v ∈ flattenAll items := by
  induction items with
  | nil => cases hv
  | cons first rest ih =>
    rw [flattenAll, mem_append]
    rcases mem_cons.mp hv with rfl | hv
    · exact .inl (by rw [hwhole]; exact mem_singleton_self v)
    · exact .inr (ih hv)

theorem AllFine.lastElement_of_mem {kind : Element} (h : AllFine body) (hv : v ∈ body)
    (hkind : v.isElement kind = true) :
    ∃ fields, Build.lastElement kind body = .element kind fields ∧ SoundElement kind fields := by
  refine (h.lastElement kind).resolve_left fun hnull => ?_
  cases hfound : (body.filter (Value.isElement kind)).getLast? with
  | none =>
    rw [List.getLast?_eq_none_iff] at hfound
    exact not_mem_nil (hfound ▸ mem_filter.mpr ⟨hv, hkind⟩)
  | some last =>
    have hlast := (mem_filter.mp (mem_of_getLast? hfound)).2
    rw [Build.lastElement, Build.lastOrNull, hfound] at hnull
    cases hnull
    cases hlast

end Bodies

section Headers

variable {items : List Value} {v : Value}

/-- What is known of the arguments of an invocation. -/
structure HeaderArguments.Sound (a : HeaderArguments) : Prop where
  layer : a.layer = .null ∨ isInt a.layer = true
  condition : Condition a.enableTail

variable {a : HeaderArguments}

theorem HeaderArguments.Sound.add (h : a.Sound) (hv : IsArgument v) : (a.add v).Sound := by
  unfold HeaderArguments.add
  split
  · next hint =>
    split
    · exact ⟨.inr hint, h.condition⟩
    · exact h
  · split
    · next henable =>
      dsimp only
      split
      · exact ⟨h.layer, h.condition⟩
      · exact ⟨h.layer, hv henable⟩
    · split
      · exact ⟨h.layer, h.condition⟩
      · split
        · exact ⟨h.layer, h.condition⟩
        · exact h

theorem HeaderArguments.Sound.foldl (h : a.Sound) (hitems : ∀ v ∈ items, IsArgument v) :
    (items.foldl HeaderArguments.add a).Sound := by
  induction items generalizing a with
  | nil => exact h
  | cons v rest ih =>
    obtain ⟨hv, hrest⟩ := forall_mem_cons.mp hitems
    exact ih (h.add hv) hrest

theorem HeaderArguments.Sound.shown (h : a.Sound) :
    a.layer.isNull = true ∨ ∃ text, a.layer.shown = .ok text := by
  rcases h.layer with hnull | hint
  · exact .inl (by rw [hnull]; rfl)
  · generalize a.layer = layer at hint
    cases layer with
    | bool b | int n => exact .inr ⟨_, rfl⟩
    | _ => cases hint

theorem invocation?_of_isInvoked (h : IsInvoked v) :
    ∃ xs : List Double, invocation? v = some (xs.map .real) := by
  obtain ⟨xs, hlength, rfl⟩ := h
  refine ⟨xs, ?_⟩
  have hnumbers : (xs.map Value.real).all Value.isNumber = true := by
    simp [Value.isNumber]
  have htake : (xs.map Value.real).take 5 = xs.map Value.real :=
    take_of_length_le (by simp [hlength])
  simp [invocation?, hlength, htake, Value.isNumber]

/-- The coordinates of an invocation that is there can be read. -/
theorem invocations_made (hinvoked : ∃ v ∈ items, IsInvoked v)
    (hitems : ∀ v ∈ items, IsInvoked v ∨ invocation? v = none) :
    ∃ found coord, ((items.filterMap invocation?).mapM fun coord =>
      coord.mapM fun v => do return Value.real (← v.toDouble) : Result (List (List Value))) =
        .ok found ∧ found.getLast? = some coord := by
  have hreals : ∀ coord ∈ items.filterMap invocation?, ∃ xs : List Double,
      coord = xs.map .real := by
    intro coord hcoord
    obtain ⟨v, hv, hfound⟩ := mem_filterMap.mp hcoord
    rcases hitems v hv with hv | hnone
    · obtain ⟨xs, hxs⟩ := invocation?_of_isInvoked hv
      exact ⟨xs, Option.some.inj (hfound.symm.trans hxs)⟩
    · rw [hnone] at hfound
      cases hfound
  obtain ⟨found, hfound⟩ : ∃ found, ((items.filterMap invocation?).mapM fun coord =>
      coord.mapM fun v => do return Value.real (← v.toDouble) : Result (List (List Value))) =
        .ok found := by
    refine mapM_returns_iff.mpr fun coord hcoord => ?_
    obtain ⟨xs, rfl⟩ := hreals coord hcoord
    refine mapM_returns_iff.mpr fun v hv => ?_
    obtain ⟨x, -, rfl⟩ := mem_map.mp hv
    exact ⟨.real x, rfl⟩
  refine ⟨found, ?_⟩
  have hsome : found ≠ [] := by
    obtain ⟨v, hv, hplace⟩ := hinvoked
    obtain ⟨xs, hxs⟩ := invocation?_of_isInvoked hplace
    have hmem := mem_filterMap.mpr ⟨v, hv, hxs⟩
    intro hnil
    have hlength := length_of_mapM hfound
    rw [hnil, length_nil, eq_comm, length_eq_zero_iff] at hlength
    exact not_mem_nil (hlength ▸ hmem)
  exact ⟨found.getLast hsome, hfound, List.getLast?_eq_getLast_of_ne_nil hsome⟩

theorem orEmpty_text (s : String) : orEmpty (.text s) = .text s := by
  by_cases hs : s = ""
  · simp [orEmpty, Value.holds, hs]
  · simp [orEmpty, Value.holds, hs]

theorem moduleHeader_made {name : String} (hname : firstOrNull Value.isText items = .text name)
    (hinvoked : ∃ v ∈ items, IsInvoked v)
    (hitems : ∀ v ∈ items, IsInvoked v ∨ invocation? v = none)
    (harguments : ∀ v ∈ allChildren "arguments" items, IsArgument v) :
    ∃ v, moduleHeader items = .ok v ∧ v.IsHeader := by
  obtain ⟨found, coord, hfound, hlast⟩ := invocations_made hinvoked hitems
  obtain ⟨a, ha⟩ : ∃ a, a = (allChildren "arguments" items).foldl HeaderArguments.add {} := ⟨_, rfl⟩
  have hsound : a.Sound := ha ▸ HeaderArguments.Sound.foldl ⟨.inl rfl, .inl rfl⟩ harguments
  have hmade : ∃ layer, moduleHeader items = .ok (Value.ofFields .moduleHeader
      [("name", .text name), ("invoke_coord", .tuple coord), ("layer_info", layer),
        ("enable", a.enable), ("zoom_limits", a.zoomLimits), ("zoomable", .bool a.zoomable),
        ("enable_tail", a.enableTail)]) := by
    by_cases hnull : a.layer.isNull = true
    · refine ⟨.null, bind_eq_ok.mpr ⟨found, hfound, ?_⟩⟩
      simp only [hlast, ← ha, hname, orEmpty_text, if_pos hnull]
      rfl
    · obtain ⟨text, htext⟩ := hsound.shown.resolve_left hnull
      refine ⟨.text text, bind_eq_ok.mpr ⟨found, hfound, ?_⟩⟩
      simp only [hlast, ← ha, hname, orEmpty_text, if_neg hnull, htext]
      rfl
  obtain ⟨layer, hmade⟩ := hmade
  exact ⟨_, hmade, _, _, _, _, _, _, _, _, _, rfl, rfl, hsound.condition, none, rfl⟩

end Headers

section Modules

variable {items body rest : List Value} {header target v : Value}

theorem Fine.isHeader (h : Fine v) (hkind : v.isElement .moduleHeader = true) : v.IsHeader := by
  obtain ⟨fields, rfl, hsound⟩ := h.of_isElement hkind
  exact hsound

theorem AllFine.types (h : AllFine body) :
    ∀ v ∈ body.flatMap fun v =>
      if v.isElement .typeDef then [v]
      else Build.elementsUnder "moduletype_list" .typeDef [v],
      Reads v.toTypeDef TypeDef.WellMade := by
  intro v hv
  obtain ⟨given, hgiven, hv⟩ := mem_flatMap.mp hv
  split at hv
  · next hkind =>
    cases mem_singleton.mp hv
    obtain ⟨fields, rfl, hsound⟩ := (h v hgiven).of_isElement hkind
    exact hsound
  · have hone : AllFine [given] := .cons (h given hgiven) .nil
    obtain ⟨fields, rfl, hsound⟩ := hone.soundUnder "moduletype_list" .typeDef v hv
    exact hsound

theorem basePicture_made (hheader : header.IsHeader) (hbody : AllFine body) :
    ∃ fields, basePicture (header :: body) = .ok (.element .basePicture fields) ∧
      SoundElement .basePicture fields := by
  have hbody := hbody.flattenAll
  have hcoord : ∃ coord, header.field "invoke_coord" = .ok coord := by
    obtain ⟨name, coord, layer, enable, zoomLimits, zoomable, condition, connection, isGlobal, rfl,
      -⟩ := hheader
    exact ⟨coord, rfl⟩
  obtain ⟨coord, hcoord⟩ := hcoord
  unfold basePicture
  simp only [hcoord]
  exact ⟨_, rfl, Value.reads_picture (isHeader_withScanGroup hheader hbody.scanGroupOf)
    hbody.wellBodied hbody.types (hbody.variablesUnder _) hbody.submodulesUnder⟩

theorem newModule_made (hitems : AllFine items) (hv : v ∈ items)
    (hkind : v.isElement .moduleHeader = true) : ∃ w, newModule items = .ok w ∧ Fine w := by
  have hbody := hitems.flattenAll
  have hwhole : flatten v = [v] := by
    obtain ⟨fields, rfl, -⟩ := (hitems v hv).of_isElement hkind
    rfl
  obtain ⟨header, hheader⟩ : ∃ header,
      (flattenAll items).find? (Value.isElement .moduleHeader) = some header :=
    Option.isSome_iff_exists.mp (List.find?_isSome.mpr ⟨v, mem_flattenAll hv hwhole, hkind⟩)
  have hinvoked := isHeader_withScanGroup ((hbody header (mem_of_find?_eq_some hheader)).isHeader
    (List.find?_some hheader)) hbody.scanGroupOf
  obtain ⟨invocation, hinvocation, hwell⟩ := hinvoked.toHeader
  unfold newModule
  simp only [hheader]
  split
  · exact ⟨_, rfl, .element (Value.readsModule_frame hinvocation hwell hbody.wellBodied
      hbody.submodulesUnder)⟩
  · exact ⟨_, rfl, .element (Value.readsModule_single hinvocation hwell hbody.wellBodied
      (hbody.variablesUnder _) (hbody.variablesUnder _) hbody.submodulesUnder
      (hbody.mappingsUnder _))⟩

theorem typeInstance_made {name : String} (hheader : header.isElement .moduleHeader = true)
    (hname : name ≠ "") (hitems : AllFine (header :: .text name :: rest)) :
    ∃ w, typeInstance (header :: .text name :: rest) = .ok w ∧ Fine w := by
  obtain ⟨fields, hfields, hsound⟩ :=
    hitems.lastElement_of_mem mem_cons_self hheader
  obtain ⟨own, rfl, -⟩ := (hitems header mem_cons_self).of_isElement hheader
  have hfirst : firstOrNull Value.isText (.element .moduleHeader own :: .text name :: rest) =
      .text name := rfl
  have hholds : (Value.text name).holds = true := by
    simp [Value.holds, hname]
  obtain ⟨invocation, hinvocation, hwell⟩ := Value.IsHeader.toHeader hsound
  unfold typeInstance
  simp only [hfields, hfirst, hholds, if_pos]
  exact ⟨_, rfl, .element (Value.readsModule_typed hinvocation hwell rfl
    (hitems.mappingsUnder _))⟩

/-- Values other than elements can always be shown. -/
def isElementary : Value → Bool
  | .element _ _ => false
  | _ => true

theorem shown_of_isElementary (h : isElementary v = true) : ∃ text, v.shown = .ok text := by
  cases v with
  | element kind fields => cases h
  | _ => exact ⟨_, rfl⟩

theorem mappingSource_made (hfine : AllFine rest) (h : ∀ v ∈ rest, isElementary v = true) :
    ∃ kind source literal, mappingSource rest = .ok (kind, source, literal) ∧ Fine source := by
  unfold mappingSource
  split
  · exact ⟨_, _, _, rfl, fine_null⟩
  · exact ⟨_, _, _, rfl, hfine _ mem_cons_self⟩
  · split
    · exact ⟨_, _, _, rfl, fine_null⟩
    · obtain ⟨text, htext⟩ := shown_of_isElementary (h _ mem_cons_self)
      rw [htext]
      exact ⟨_, _, _, rfl, fine_null⟩

/-- The source of a mapping stands behind its flags. -/
theorem parameterTransfer_eq (keys values rest : List Value) :
    ∃ following isDuration isGlobal, following ⊆ rest ∧
      parameterTransfer (.dict keys values :: rest) = do
        let (sourceType, source, literal) ← mappingSource following
        return .element .parameterMapping [.dict keys values, .text sourceType, .bool isDuration,
          .bool isGlobal, source, literal] := by
  rcases rest with _ | ⟨first, others⟩
  · exact ⟨[], false, false, List.Subset.refl _, rfl⟩
  · cases first with
    | bool b =>
      rcases others with _ | ⟨second, more⟩
      · exact ⟨[], false, b, nil_subset _, rfl⟩
      · cases second with
        | null => exact ⟨more, true, b, by simp, rfl⟩
        | _ => exact ⟨_ :: more, false, b, subset_cons_self _ _, rfl⟩
    | null => exact ⟨others, true, false, subset_cons_self _ _, rfl⟩
    | _ => exact ⟨_ :: others, false, false, List.Subset.refl _, rfl⟩

theorem parameterTransfer_made {keys values : List Value}
    (hitems : AllFine (.dict keys values :: rest)) (h : ∀ v ∈ rest, isElementary v = true) :
    ∃ v, parameterTransfer (.dict keys values :: rest) = .ok v ∧ Fine v := by
  obtain ⟨htarget, hrest⟩ := forall_mem_cons.mp hitems
  obtain ⟨following, isDuration, isGlobal, hsub, heq⟩ := parameterTransfer_eq keys values rest
  obtain ⟨kind, source, literal, hsource, hfine⟩ := mappingSource_made
    (fun v hv => hrest v (hsub hv)) fun v hv => h v (hsub hv)
  rw [heq, hsource]
  exact ⟨_, rfl, .element ⟨_, rfl, hfine.baseName, htarget.baseName⟩⟩

theorem fine_scanGroup (h : AllFine items) : Fine (scanGroup items) :=
  .dict ⟨none, rfl⟩ (AllFine.cons (h.lastOrNull _) (.cons (.plain rfl) .nil))

end Modules

section Parts

variable {alternatives : List (List Grammar.Part)} {row : List Grammar.Part} {inner : List Tree}
  {items : List Value} {v : Value}

theorem Lexical.isArgument (h : Lexical v) : IsArgument v := by
  cases h <;> exact fun henable => nomatch henable

/-- The rules of the arguments of an invocation. -/
def argumentNames : List String :=
  ["layer_info", "enable", "zoomlimits", "interact_assign_variable"]

variable {name : String} {tree : Tree} {rest : List Grammar.Part}

theorem Built.isArgument (h : Built name tree v) (hname : name ∈ argumentNames) : IsArgument v := by
  simp only [argumentNames, mem_cons, not_mem_nil, or_false] at hname
  rcases hname with rfl | rfl | rfl | rfl
  · have hlayer : IsLayer v := h.keeps (valued IsLayer) (by repeat constructor)
    cases v with
    | dict keys values => cases hlayer
    | _ => exact fun henable => nomatch henable
  · exact isArgument_of_isEnabling (h.keeps (valued IsEnabling) (by repeat constructor))
  · exact h.keeps (valued IsArgument) (by repeat constructor)
  · exact h.keeps (valued IsArgument) (by repeat constructor)

/-- An item of an invocation: its coordinates, its arguments or a lexeme. -/
structure IsHeaderItem (v : Value) : Prop where
  place : IsInvoked v ∨ invocation? v = none
  arguments : ∀ a ∈ (v.treeChildren? "arguments").getD [], IsArgument a

theorem Lexical.isHeaderItem (h : Lexical v) : IsHeaderItem v := by
  cases h <;> exact ⟨.inr rfl, fun a ha => nomatch ha⟩

theorem Built.isHeaderItem (h : Built name tree v) (hname : name ∈ ["invoke_coord", "arguments"]) :
    IsHeaderItem v := by
  rcases mem_cons.mp hname with rfl | hname
  · have hinvoked : IsInvoked v := h.keeps (valued IsInvoked) (by repeat constructor)
    obtain ⟨xs, hlength, rfl⟩ := hinvoked
    exact ⟨.inl ⟨xs, hlength, rfl⟩, fun a ha => nomatch ha⟩
  · cases mem_singleton.mp hname
    obtain ⟨arguments, rfl, harguments⟩ : AreArguments v :=
      h.keeps (valued AreArguments) (by repeat constructor)
    exact ⟨.inr rfl, harguments⟩

theorem Parts.headed
    (h : Parts [.token "NAME", .token "INVOCATION", .mark "LPAR", .rule "invoke_coord",
      .many [[.rule "arguments"]], .mark "RPAR"] inner items) :
    ∃ v, moduleHeader items = .ok v ∧ v.IsHeader := by
  have hitems : ∀ v ∈ items, IsHeaderItem v :=
    h.forall_listed (mem_singleton_self _) (by repeat constructor)
      (fun _ hv => hv.isHeaderItem) fun _ hname _ _ hv => hv.isHeaderItem hname
  have hinvoked : ∃ v ∈ items, IsInvoked v := by
    obtain ⟨v, hv, tree, hbuilt⟩ :=
      h.builds.exists_rule (show Grammar.Part.rule "invoke_coord" ∈ _ by simp)
    exact ⟨v, hv, hbuilt.keeps (valued IsInvoked) (by repeat constructor)⟩
  obtain ⟨_, name, _, _, rfl, rfl, -⟩ := h.builds.of_name
  refine @moduleHeader_made _ name rfl hinvoked (fun v hv => (hitems v hv).place) ?_
  intro a ha
  obtain ⟨v, hv, ha⟩ := mem_flatMap.mp ha
  exact (hitems v hv).arguments a ha

theorem Parts.pictured (h : Parts (.rule "module_header" :: rest) inner items) :
    ∃ fields, basePicture items = .ok (.element .basePicture fields) ∧
      SoundElement .basePicture fields := by
  have hfine := h.fine
  obtain ⟨_, header, _, _, rfl, rfl, hheader, -⟩ := h.builds.of_rule
  obtain ⟨hown, hbody⟩ := forall_mem_cons.mp hfine
  exact basePicture_made
    (hown.isHeader (hheader.keeps (ofKind .moduleHeader) (by repeat constructor))) hbody

theorem Parts.invoked (h : Parts (.rule "module_header" :: rest) inner items) :
    ∃ v, newModule items = .ok v ∧ Fine v := by
  obtain ⟨v, hv, tree, hbuilt⟩ := h.builds.exists_rule mem_cons_self
  exact newModule_made h.fine hv (hbuilt.keeps (ofKind .moduleHeader) (by repeat constructor))

theorem Parts.typed {rest : List Grammar.Part}
    (h : Parts (.rule "module_header" :: .mark "COLON" :: .token "NAME" :: rest) inner items) :
    ∃ v, typeInstance items = .ok v ∧ Fine v := by
  have hfine := h.fine
  have hlexed := h.lexed
  obtain ⟨tree, header, _, _, rfl, rfl, hheader, hrest⟩ := h.builds.of_rule
  obtain ⟨lexeme, _, _, _, rfl, rfl, hkind, hv, -⟩ := hrest.of_mark.of_token
  cases text_of_name hkind hv
  have hname : lexeme.text ≠ "" := by
    refine Syntax.Token.Lexed.name_ne_empty (hlexed lexeme ?_) hkind
    simp [lexemesIn, lexemes]
  exact typeInstance_made (hheader.keeps (ofKind .moduleHeader) (by repeat constructor)) hname
    hfine

theorem Lexical.isElementary (h : Lexical v) : isElementary v = true := by
  cases h <;> rfl

theorem IsReference.isElementary (h : IsReference v) : isElementary v = true := by
  obtain ⟨keys, values, rfl, -⟩ := h
  rfl

theorem Built.isElementary (h : Built name tree v) (hname : name ∈ ["variable_name", "value"]) :
    isElementary v = true := by
  rcases mem_cons.mp hname with rfl | hname
  · obtain ⟨href, -⟩ : ofReference tree v := h.keeps ofReference (by repeat constructor)
    exact href.isElementary
  · cases mem_singleton.mp hname
    obtain ⟨hliteral, -⟩ : ofLiteral tree v := h.keeps ofLiteral (by repeat constructor)
    rcases hliteral with ⟨_, rfl⟩ | ⟨_, rfl⟩ | ⟨_, rfl⟩ | ⟨_, rfl⟩ <;> rfl

theorem Parts.transferred (h : Parts (.rule "variable_name" :: rest) inner items)
    (hnames : Listed ["variable_name", "value"]
      (pickIn nameHere [.rule "variable_name" :: rest])) :
    ∃ v, parameterTransfer items = .ok v ∧ Fine v := by
  have hfine := h.fine
  have hplain : ∀ v ∈ items, Build.isElementary v = true :=
    h.forall_listed (mem_singleton_self _) hnames (fun _ hv => hv.isElementary)
      fun _ hname _ _ hv => hv.isElementary hname
  obtain ⟨tree, target, _, _, rfl, rfl, htarget, -⟩ := h.builds.of_rule
  obtain ⟨href, -⟩ : ofReference tree target :=
    htarget.keeps ofReference (by repeat constructor)
  obtain ⟨keys, values, rfl, -⟩ := href
  exact parameterTransfer_made hfine (forall_mem_cons.mp hplain).2

theorem Parts.dated (h : Parts [.token "DATECODE_PREFIX", .token "SL_DATECODE"] inner items) :
    ∃ v, dateCode items items = .ok v ∧ Fine v := by
  have hlexed := h.lexed
  obtain ⟨mark, _, _, _, rfl, rfl, hmark, hv, hrest⟩ := h.builds.of_token
  obtain ⟨lexeme, _, _, _, rfl, rfl, hkind, hw, hnil⟩ := hrest.of_token
  cases hnil
  obtain ⟨n, hn⟩ := Option.isSome_iff_exists.mp
    (Syntax.Token.Lexed.readDateCode (hlexed lexeme (by simp [lexemesIn, lexemes])) hkind)
  cases token_of_leaf (hmark ▸ by repeat constructor) hv
  cases token_of_leaf (hkind ▸ by repeat constructor) hw
  refine ⟨.int n, ?_, .plain rfl⟩
  have hskip : ∀ all, dateCode all [.token "DATECODE_PREFIX" mark.text,
      .token "SL_DATECODE" lexeme.text] = dateCode all [.token "SL_DATECODE" lexeme.text] :=
    fun _ => rfl
  rw [hmark, hkind, hskip, dateCode]
  simp only [hn]

end Parts

/-- A program is the base picture behind its header lines. -/
theorem start_kept : (ofKind .basePicture).Kept
    ⟨"start", .collapsing "start", [[.rule "header_lines", .rule "base_picture_module"]]⟩ := by
  have hfound : ∀ {row inner items},
      row ∈ [[Grammar.Part.rule "header_lines", .rule "base_picture_module"]] →
      Parts row inner items → ∃ header picture v, inner = [header, picture] ∧
        programOf items = .ok v ∧ Fine v ∧ v.isElement .basePicture = true := by
    intro row inner items hrow hparts
    cases mem_singleton.mp hrow
    obtain ⟨header, lines, _, _, rfl, rfl, hlines, hrest⟩ := hparts.builds.of_rule
    obtain ⟨picture, v, rfl, rfl, hv⟩ := hrest.of_lone
    obtain ⟨label, parts, items, -, rfl, rfl⟩ : keptTree header lines :=
      hlines.keeps keptTree (by repeat constructor)
    have hkind : v.isElement .basePicture = true :=
      hv.keeps (ofKind .basePicture) (by repeat constructor)
    refine ⟨_, picture, v, rfl, ?_, hv.fine, hkind⟩
    have hfind : [Value.tree label true items, v].find? (Value.isElement .basePicture) = some v := by
      have hlines : (Value.tree label true items).isElement .basePicture = false := rfl
      simp [hlines, hkind]
    rw [programOf, hfind]
  have hlisted : ("start", programOf) ∈ ordinaryConstructions := by repeat constructor
  constructor
  case returns =>
    intro row inner items hrow hparts _
    obtain ⟨_, _, v, -, hv, -⟩ := hfound hrow hparts
    refine iff_of_true ⟨v, ?_⟩ (assembles_of_not_placeLabel (not_placeLabel_of_mem hlisted))
    rw [labelOf, constructed_of_mem (mem_constructions hlisted), hv]
  case made =>
    intro row inner items w hrow hparts _ hw
    obtain ⟨_, _, v, -, hv, hfine⟩ := hfound hrow hparts
    rw [labelOf, constructed_of_mem (mem_constructions hlisted), hv] at hw
    cases hw
    exact hfine
  case only =>
    intro row tree v label _ hrow hparts
    obtain ⟨_, _, _, htwo, -⟩ := hfound hrow hparts
    cases htwo

theorem moduleRules_kept : List.Forall₂ KeptBy moduleRules modulePromises := by
  refine .cons ⟨rfl, fun _ => start_kept⟩ <| .cons (keptBy_tree ?_) <| .cons (keptBy_tree ?_) <|
    .cons (keptBy_tree ?_) <| .cons (keptBy_tree ?_) <| .cons ⟨rfl, fun _ => ?header⟩ <|
    .cons ⟨rfl, fun _ => ?argument⟩ <| .cons ⟨rfl, fun _ => ?arguments⟩ ?from_picture
  case' from_picture =>
    refine .cons ⟨rfl, fun _ => ?picture⟩ <| .cons ⟨rfl, fun _ => ?pictureBody⟩ <|
      .cons ⟨rfl, fun _ => ?body⟩ <| .cons ⟨rfl, fun _ => ?new⟩ <| .cons ⟨rfl, fun _ => ?typed⟩ <|
      .cons ⟨rfl, fun _ => ?tail⟩ ?from_connections
  case' from_connections =>
    refine .cons ⟨rfl, fun _ => ?connections⟩ <| .cons ⟨rfl, fun _ => ?connection⟩ <|
      .cons ⟨rfl, fun _ => ?frame⟩ <| .cons ⟨rfl, fun _ => ?group⟩ <|
      .cons ⟨rfl, fun _ => ?place⟩ <| .cons ⟨rfl, fun _ => ?date⟩ .nil
  case header =>
    refine .of_row (by repeat constructor) fun hparts => ?_
    obtain ⟨v, hv, hheader⟩ := hparts.headed
    obtain ⟨_, _, _, _, _, _, _, _, _, rfl, _⟩ := id hheader
    exact ⟨_, hv, .element hheader, rfl⟩
  case argument =>
    refine .of_made (by repeat constructor) fun hrow hparts => ?_
    have hitems := hparts.forall_listed hrow (by repeat constructor) (fun _ hv => hv.isArgument)
      fun _ hname _ _ hv => hv.isArgument hname
    exact ⟨_, rfl, hparts.fine.firstOrNull _,
      firstOrNull_induction (fun henable => nomatch henable) hitems _⟩
  case arguments =>
    refine .of_made (by repeat constructor) fun hrow hparts => ?_
    refine ⟨_, rfl, .tree hparts.fine.withoutTokens, _, rfl, fun v hv => ?_⟩
    refine hparts.forall_items hrow (fun _ _ _ hv => (lexical_of_leaf hv).isArgument) ?_ v
      (mem_of_mem_filter hv)
    intro name hname tree v hv
    have hname : name ∈ ["argument"] := Listed.mem (by repeat constructor) hname
    cases mem_singleton.mp hname
    exact hv.keeps (valued IsArgument) (by repeat constructor)
  case picture =>
    refine .of_row (by repeat constructor) fun hparts => ?_
    obtain ⟨fields, hfields, hsound⟩ := hparts.pictured
    exact ⟨_, hfields, .element hsound, rfl⟩
  case pictureBody | body => exact .of_fine (by repeat constructor) fun _ h => .tree h
  case new => exact .of_fine_row (by repeat constructor) fun hparts => hparts.invoked
  case typed => exact .of_fine_row (by repeat constructor) fun hparts => hparts.typed
  case tail => exact .of_fine (by repeat constructor) fun _ h => h.firstOrNull _
  case connections => exact .of_fine (by repeat constructor) fun _ h => .tree (h.filter _)
  case connection =>
    exact .of_fine_row (by repeat constructor) fun hparts =>
      hparts.transferred (by repeat constructor)
  case frame => exact .of_fine (by repeat constructor) fun _ _ => .plain rfl
  case group => exact .of_fine (by repeat constructor) fun _ => fine_scanGroup
  case place =>
    exact invokeCoord_kept ⟨by repeat constructor, by repeat constructor, by simp [isReal]⟩
  case date => exact .of_fine_row (by repeat constructor) fun hparts => hparts.dated
  all_goals repeat constructor

end SattLine.Build
