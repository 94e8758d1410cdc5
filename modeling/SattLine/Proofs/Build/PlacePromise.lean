import SattLine.Proofs.Build.CodePromise

/-!
The three constructions that may refuse: places, invocations and objects with texts. Main
statements: a place is refused just if a whole number behind one of its coordinates is too large,
and an object with texts just if the mark of a variable name in it does not follow a text.
-/

namespace SattLine.Build

open List
open Grammar (Rule rules)
open Number (Double readInt?)
open Syntax (Tree lexemes lexemesIn labelOf)

section Numbers

theorem mapM_returns_iff {ε α β : Type} {f : α → Except ε β} {xs : List α} :
    (∃ ys, xs.mapM f = .ok ys) ↔ ∀ x ∈ xs, ∃ y, f x = .ok y := by
  induction xs with
  | nil => exact iff_of_true ⟨[], rfl⟩ (by simp)
  | cons x rest ih =>
    rw [mapM_cons, forall_mem_cons, ← ih]
    cases hx : f x with
    | error e => simp [bind, Except.bind]
    | ok y => cases hrest : rest.mapM f <;> simp [bind, Except.bind, pure, Except.pure]

theorem length_of_mapM {ε α β : Type} {f : α → Except ε β} {xs : List α} {ys : List β}
    (h : xs.mapM f = .ok ys) : ys.length = xs.length := by
  induction xs generalizing ys with
  | nil =>
    cases h
    rfl
  | cons x rest ih =>
    rw [mapM_cons] at h
    cases hx : f x with
    | error e =>
      rw [hx] at h
      cases h
    | ok y =>
      cases hrest : rest.mapM f with
      | error e =>
        rw [hx, hrest] at h
        cases h
      | ok others =>
        rw [hx, hrest] at h
        cases h
        simp [ih hrest]

variable {tree : Tree} {v : Value} {row : List Grammar.Part} {inner : List Tree}
  {items : List Value}

/-- A value that counts as a number can be read as a real one. -/
def Readable? (v : Value) : Prop :=
  v.isNumber = true → ∃ x, v.toDouble = .ok x

/-- A coordinate or what stands behind it. -/
def ofCoordinate : Promise :=
  fun tree v => (hasLabel "coord_invar_tail" tree = false ∧ ∃ x, v = .real x) ∨ ofTail tree v

theorem Numbered.readable_iff (h : Numbered tree v) : Readable? v ↔ InRange tree := by
  constructor
  · intro hread lexeme hlexeme hkind n hn
    obtain rfl : v = .int n := (h n).mpr ⟨lexeme, hlexeme, hkind, hn⟩
    obtain ⟨x, hx⟩ := hread rfl
    rw [Value.toDouble] at hx
    cases hconvert : Double.ofInt? n with
    | none =>
      rw [hconvert] at hx
      cases hx
    | some y => rfl
  · intro hrange hnumber
    cases v with
    | real x => exact ⟨x, rfl⟩
    | bool b => exact ⟨_, rfl⟩
    | int n =>
      obtain ⟨lexeme, hlexeme, hkind, hn⟩ := (h n).mp rfl
      obtain ⟨x, hx⟩ := Option.isSome_iff_exists.mp (hrange lexeme hlexeme hkind n hn)
      exact ⟨x, by rw [Value.toDouble, hx]⟩
    | _ => cases hnumber

theorem ofCoordinate.readable_iff (h : ofCoordinate tree v) :
    Readable? v ↔ (hasLabel "coord_invar_tail" tree = true → InRange tree) := by
  rcases h with ⟨hlabel, x, rfl⟩ | ⟨hlabel, hnumbered⟩ | ⟨hlabel, hnumber⟩
  · exact iff_of_true (fun _ => ⟨x, rfl⟩) (by simp [hlabel])
  · simp [hlabel, hnumbered.readable_iff]
  · exact iff_of_true (by simp [Readable?, hnumber]) (by simp [hlabel])

theorem forall_readable_iff (h : List.Forall₂ ofCoordinate inner items) :
    (∀ v ∈ items, Readable? v) ↔
      ∀ tree ∈ inner, hasLabel "coord_invar_tail" tree = true → InRange tree := by
  induction h with
  | nil => simp
  | cons hpair _ ih => rw [forall_mem_cons, forall_mem_cons, hpair.readable_iff, ih]

theorem reals_returns_iff (h : List.Forall₂ ofCoordinate inner items) :
    (∃ found, reals items = .ok found) ↔
      ∀ tree ∈ inner, hasLabel "coord_invar_tail" tree = true → InRange tree := by
  rw [← forall_readable_iff h, reals, mapM_returns_iff]
  simp [Readable?]

def isReal : Grammar.Part → Bool
  | .token kind => kind == "REAL"
  | _ => false

/-- Every lexeme of a real number that has to stand in a row gives a number. -/
theorem Builds.countP_le {spec : Spec} (h : Builds spec row inner items) :
    row.countP isReal ≤ items.countP Value.isNumber := by
  induction h with
  | nil => simp
  | @token kind rest lexeme v trees items hkind hv _ ih =>
    by_cases hreal : kind = "REAL"
    · obtain ⟨x, rfl⟩ := real_of_leaf (hkind.trans hreal) hv
      simpa [isReal, hreal, countP_cons, Value.isNumber] using ih
    · have hrest : (Grammar.Part.token kind :: rest).countP isReal = rest.countP isReal := by
        simp [isReal, hreal]
      rw [hrest, countP_cons]
      omega
  | mark _ ih | skip _ ih | stop _ ih => simpa [isReal] using ih
  | rule _ _ ih =>
    simp only [isReal, countP_cons] at ih ⊢
    simp only [Bool.false_eq_true, if_false]
    omega
  | oneOf _ _ _ _ ih | opt _ _ _ _ ih | more _ _ _ _ ih | some1 _ _ _ _ ih =>
    simp only [isReal, countP_cons, countP_append] at ih ⊢
    simp only [Bool.false_eq_true, if_false] at ih ⊢
    omega

theorem length_of_reals {found : List Double} (h : reals items = .ok found) :
    found.length = items.countP Value.isNumber := by
  rw [length_of_mapM h, countP_eq_length_filter]

/-- The first numbers, as many as are needed, make a value. -/
def Makes (make : List Value → Result Value) (count : Nat) : Prop :=
  ∀ items, match reals items with
    | .error _ => ∀ v, make items ≠ .ok v
    | .ok found => count ≤ found.length → make items = .ok (.tuple ((found.take count).map .real))

variable {make : List Value → Result Value} {count : Nat}

theorem Makes.returns_iff (h : Makes make count) (hlong : count ≤ items.countP Value.isNumber) :
    (∃ v, make items = .ok v) ↔ ∃ found, reals items = .ok found := by
  have hmakes := h items
  cases hreals : reals items with
  | error e =>
    rw [hreals] at hmakes
    exact iff_of_false (fun ⟨v, hv⟩ => hmakes v hv) (by simp)
  | ok found =>
    rw [hreals] at hmakes
    exact iff_of_true ⟨_, hmakes (by rwa [length_of_reals hreals])⟩ ⟨found, rfl⟩

theorem Makes.of_eq_ok (h : Makes make count) (hlong : count ≤ items.countP Value.isNumber)
    {v : Value} (hv : make items = .ok v) :
    ∃ found, reals items = .ok found ∧ (found.take count).length = count ∧
      v = .tuple ((found.take count).map .real) := by
  obtain ⟨found, hfound⟩ := (h.returns_iff hlong).mp ⟨v, hv⟩
  have hmakes := h items
  rw [hfound] at hmakes
  rw [← length_of_reals hfound] at hlong
  cases hv.symm.trans (hmakes hlong)
  exact ⟨found, hfound, length_take_of_le hlong, rfl⟩

theorem coordinates_makes : Makes coordinates 2 := by
  intro items
  rw [coordinates]
  split
  · rename_i h
    rw [h]
    exact fun v hv => nomatch hv
  · rename_i found h
    rw [h]
    intro hlong
    match found with
    | [] | [_] => simp at hlong
    | x :: y :: _ => rfl

theorem invokeCoord_makes : Makes invokeCoord 5 := by
  intro items
  rw [invokeCoord]
  split
  · rename_i h
    rw [h]
    exact fun v hv => nomatch hv
  · rename_i found h
    rw [h]
    intro hlong
    exact if_neg (by omega)

theorem Parts.ofCoordinate {alternatives : List (List Grammar.Part)} (h : Parts row inner items)
    (hrow : row ∈ alternatives) (hkinds : Listed ["REAL"] (pickIn kindHere alternatives))
    (hnames : Listed ["coord_tail"] (pickIn nameHere alternatives)) :
    List.Forall₂ Build.ofCoordinate inner items := by
  refine h.each hrow ?_ ?_
  · intro lexeme v hkind hv
    exact .inl ⟨rfl, real_of_leaf (mem_singleton.mp (hkinds.mem hkind)) hv⟩
  · intro name hname tree v hbuilt
    cases mem_singleton.mp (hnames.mem hname)
    exact .inr (hbuilt.keeps ofTail (by repeat constructor))

end Numbers

section Places

variable {alternatives : List (List Grammar.Part)} {label : String} {inner : List Tree}

theorem assembles_place (hlabel : label = "coordinates" ∨ label = "invoke_coord") :
    Assembles label inner ↔
      ∀ tree ∈ inner, hasLabel "coord_invar_tail" tree = true → InRange tree := by
  constructor
  · intro h
    exact h.range (by rcases hlabel with rfl | rfl <;> simp)
  · intro h
    refine ⟨fun _ => h, fun htext => ?_⟩
    rcases hlabel with rfl | rfl <;> exact absurd htext (by decide)

/-- Real numbers, as many as are needed, with connections behind them. -/
structure IsPlaceRule (count : Nat) (alternatives : List (List Grammar.Part)) : Prop where
  kinds : Listed ["REAL"] (pickIn kindHere alternatives)
  names : Listed ["coord_tail"] (pickIn nameHere alternatives)
  reals : ∀ row ∈ alternatives, count ≤ row.countP isReal

variable {count : Nat} {make : List Value → Result Value} {P : Value → Prop}

theorem Makes.kept (hmakes : Makes make count) (hfine : ∀ v, P v → Fine v)
    (hP : ∀ xs : List Double, xs.length = count → P (.tuple (xs.map .real)))
    (hlabel : label = "coordinates" ∨ label = "invoke_coord")
    (hmade : ∀ items, constructed label items = make items) (h : IsPlaceRule count alternatives) :
    (valued P).Kept ⟨label, .node label, alternatives⟩ where
  returns {row inner items} hrow hparts _ := by
    have hlong := Nat.le_trans (h.reals row hrow) hparts.builds.countP_le
    rw [labelOf, hmade, hmakes.returns_iff hlong, assembles_place hlabel,
      reals_returns_iff (hparts.ofCoordinate hrow h.kinds h.names)]
  made {row inner items v} hrow hparts _ hv := by
    have hlong := Nat.le_trans (h.reals row hrow) hparts.builds.countP_le
    rw [labelOf, hmade] at hv
    obtain ⟨found, -, hlength, rfl⟩ := hmakes.of_eq_ok hlong hv
    exact ⟨hfine _ (hP _ hlength), hP _ hlength⟩
  only hshape := nomatch hshape

theorem coordinates_kept (h : IsPlaceRule 2 alternatives) :
    (valued IsPlace).Kept ⟨"coordinates", .node "coordinates", alternatives⟩ := by
  refine coordinates_makes.kept (fun _ ⟨_, _, h⟩ => h ▸ .plain rfl) (fun xs hlength => ?_) (.inl rfl)
    (constructed_of_mem (by repeat constructor)) h
  obtain ⟨x, y, rfl⟩ := length_eq_two.mp hlength
  exact ⟨x, y, rfl⟩

theorem invokeCoord_kept (h : IsPlaceRule 5 alternatives) :
    (valued IsInvoked).Kept ⟨"invoke_coord", .node "invoke_coord", alternatives⟩ :=
  invokeCoord_makes.kept (fun _ ⟨_, _, h⟩ => h ▸ .plain rfl) (fun xs hlength => ⟨xs, hlength, rfl⟩)
    (.inr rfl) (constructed_of_mem (by repeat constructor)) h

end Places

section Texts

variable {tree : Tree} {v : Value} {trees treesBefore : List Tree} {items before : List Value}

/-- The value stands for a text just if its tree does, and for an empty one just if it does. -/
def Worded : Promise :=
  fun tree v =>
    match textOf? tree with
    | some text => ∃ w, textOfItem v = .ok w ∧ (w.holds = true ↔ text ≠ "")
    | none => ∀ w, textOfItem v ≠ .ok w

/-- A text of an object, or the mark that it names a variable. -/
structure Marked (tree : Tree) (v : Value) : Prop where
  worded : Worded tree v
  mark : (∃ text, v = .token "VARNAME" text) ↔
    ∃ lexeme, tree = .leaf lexeme ∧ lexeme.kind = "VARNAME"

theorem nearestText_returns_iff (h : List.Forall₂ Worded trees items) :
    (∃ found, nearestText items = .ok found) ↔ FollowsText trees := by
  induction h with
  | nil => exact iff_of_true ⟨[], rfl⟩ trivial
  | @cons tree v rest others hpair _ ih =>
    rw [nearestText, FollowsText]
    unfold Worded at hpair
    cases htext : textOf? tree with
    | none =>
      rw [htext] at hpair
      refine iff_of_false ?_ (by simp)
      rintro ⟨found, hfound⟩
      obtain ⟨w, hw, -⟩ := bind_eq_ok.mp hfound
      exact hpair w hw
    | some text =>
      rw [htext] at hpair
      obtain ⟨w, hw, hholds⟩ := hpair
      rw [hw]
      by_cases hempty : text = ""
      · have hnot : w.holds = false := by simpa [hempty] using hholds
        simpa [bind, Except.bind, hnot, hempty] using ih
      · have hholds : w.holds = true := hholds.mpr hempty
        exact iff_of_true ⟨[w], by simp [bind, Except.bind, hholds, pure, Except.pure]⟩
          ⟨text, rfl, fun h => absurd h hempty⟩

/-- The marks of variable names follow texts, if something stands before the trees. -/
def MarksFollow (treesBefore trees : List Tree) : Prop :=
  ∀ skipped lexeme after, trees = skipped ++ Tree.leaf lexeme :: after → lexeme.kind = "VARNAME" →
    FollowsText (skipped.reverse ++ treesBefore)

theorem marksFollow_cons :
    MarksFollow treesBefore (tree :: trees) ↔
      ((∃ lexeme, tree = .leaf lexeme ∧ lexeme.kind = "VARNAME") → FollowsText treesBefore) ∧
        MarksFollow (tree :: treesBefore) trees := by
  constructor
  · intro h
    refine ⟨?_, ?_⟩
    · rintro ⟨lexeme, rfl, hkind⟩
      exact h [] lexeme trees rfl hkind
    · intro skipped lexeme after htrees hkind
      simpa using h (tree :: skipped) lexeme after (by rw [htrees]; rfl) hkind
  · rintro ⟨hfirst, hrest⟩ skipped lexeme after htrees hkind
    match skipped with
    | [] =>
      cases htrees
      exact hfirst ⟨lexeme, rfl, hkind⟩
    | first :: more =>
      cases htrees
      simpa using hrest more lexeme after rfl hkind

/-- What is found at a mark and behind it. -/
theorem namedTexts_cons (before : List Value) (v : Value) (rest : List Value) :
    (∃ found, namedTexts before (v :: rest) = .ok found) ↔
      ((∃ text, v = .token "VARNAME" text) → ∃ found, nearestText before = .ok found) ∧
        ∃ found, namedTexts (v :: before) rest = .ok found := by
  by_cases hmark : ∃ text, v = .token "VARNAME" text
  · obtain ⟨text, rfl⟩ := hmark
    have hstep : namedTexts before (.token "VARNAME" text :: rest) = do
        let here ← nearestText before
        let following ← namedTexts (.token "VARNAME" text :: before) rest
        return here ++ following := rfl
    rw [hstep]
    simp only [bind_eq_ok]
    constructor
    · rintro ⟨_, here, hhere, following, hfollowing, -⟩
      exact ⟨fun _ => ⟨here, hhere⟩, following, hfollowing⟩
    · rintro ⟨hnear, following, hfollowing⟩
      obtain ⟨here, hhere⟩ := hnear ⟨text, rfl⟩
      exact ⟨_, here, hhere, following, hfollowing, rfl⟩
  · have hstep : namedTexts before (v :: rest) = namedTexts (v :: before) rest := by
      rw [namedTexts]
      · cases namedTexts (v :: before) rest <;> rfl
      · exact fun text heq => hmark ⟨text, heq⟩
    rw [hstep]
    simp only [hmark, false_implies, true_and]

theorem namedTexts_returns_iff (hbefore : List.Forall₂ Worded treesBefore before)
    (h : List.Forall₂ Marked trees items) :
    (∃ found, namedTexts before items = .ok found) ↔ MarksFollow treesBefore trees := by
  induction h generalizing treesBefore before with
  | nil =>
    refine iff_of_true ⟨[], rfl⟩ ?_
    intro skipped lexeme after htrees
    simp at htrees
  | @cons tree v rest others hpair _ ih =>
    rw [marksFollow_cons, ← ih (.cons hpair.worded hbefore), ← hpair.mark,
      ← nearestText_returns_iff hbefore, namedTexts_cons]

theorem untextual.worded (h : untextual tree v) : Worded tree v := by
  obtain ⟨htree, htext, hchildren⟩ := h
  rw [Worded, htree]
  intro w hw
  simp [textOfItem, htext, hchildren, refuse] at hw

theorem textContent_not_treeLabel : "text_content" ∉ treeLabels := by
  intro h
  have hlabel : "text_content" ∈ constructions.map Prod.fst :=
    mem_map.mpr ⟨("text_content", textContent), by repeat constructor, rfl⟩
  exact (nodup_append.mp nodup_labels).2.2 _ hlabel _ h rfl

theorem keptTree.untextual (h : keptTree tree v) : untextual tree v := by
  obtain ⟨label, parts, items, hlabel, rfl, rfl⟩ := h
  have hne : label ≠ "text_content" := fun heq => textContent_not_treeLabel (heq ▸ hlabel)
  refine ⟨?_, rfl, by simp [Value.treeChildren?, hne]⟩
  unfold textOf?
  split
  · next heq => cases heq
  · next heq =>
    cases heq
    split <;> simp [hne]

theorem ofText.worded (h : ofText tree v) : Worded tree v := by
  obtain ⟨lexeme, rfl, rfl⟩ := h
  have htext : textOf? (.node "text_content" [.leaf lexeme]) = some (unquoted lexeme.text) := by
    simp [textOf?]
  rw [Worded, htext]
  exact ⟨_, rfl, by simp [Value.holds]⟩

theorem worded_leaf (lexeme : Syntax.Token) :
    Worded (.leaf lexeme) (.token lexeme.kind lexeme.text) :=
  ⟨_, rfl, by simp [Value.holds]⟩

theorem untextual.marked (h : untextual tree v) : Marked tree v := by
  refine ⟨h.worded, iff_of_false ?_ ?_⟩
  · rintro ⟨text, rfl⟩
    cases h.2.1
  · rintro ⟨lexeme, rfl, -⟩
    cases h.1

theorem ofText.marked (h : ofText tree v) : Marked tree v := by
  refine ⟨h.worded, iff_of_false ?_ ?_⟩
  · rintro ⟨text, rfl⟩
    obtain ⟨lexeme, -, hv⟩ := h
    cases hv
  · rintro ⟨lexeme, rfl, -⟩
    obtain ⟨_, htree, -⟩ := h
    cases htree

theorem marked_leaf {lexeme : Syntax.Token} (hkind : lexeme.kind ∈ keywordKinds)
    (hv : valueOf (.leaf lexeme) = .ok v) : Marked (.leaf lexeme) v := by
  cases token_of_leaf hkind hv
  exact ⟨worded_leaf lexeme, by simp⟩

/-- The rules of the parts of an object with texts. -/
def textPartNames : List String :=
  ["text_content", "origo_size_pair", "value_fraction", "alignment", "connection_node", "width",
    "format_string", "common_properties"]

theorem Built.marked {name : String} (h : Built name tree v) (hname : name ∈ textPartNames) :
    Marked tree v := by
  simp only [textPartNames, mem_cons, not_mem_nil, or_false] at hname
  rcases hname with rfl | rfl | rfl | rfl | rfl | rfl | rfl | rfl
  · exact ofText.marked (h.keeps ofText (by repeat constructor))
  · exact untextual.marked (h.keeps untextual (by repeat constructor))
  all_goals exact (keptTree.untextual (h.keeps keptTree (by repeat constructor))).marked

theorem textObject_returns_iff :
    (∃ v, textObject items = .ok v) ↔ ∃ found, namedTexts [] items = .ok found := by
  unfold textObject
  simp only [bind_eq_ok]
  constructor
  · rintro ⟨_, found, hfound, -⟩
    exact ⟨found, hfound⟩
  · rintro ⟨found, hfound⟩
    exact ⟨_, found, hfound, rfl⟩

theorem assembles_text : Assembles "text_object" trees ↔ MarksFollow [] trees := by
  constructor
  · intro h skipped lexeme after htrees hkind
    simpa using h.texts rfl skipped lexeme after htrees hkind
  · intro h
    refine ⟨fun hplace => absurd hplace (by decide), fun _ skipped lexeme after htrees hkind => ?_⟩
    simpa using h skipped lexeme after htrees hkind

theorem fine_graphObjectOf (type : String) {entries : List (String × Value)}
    (h : ∀ v, ("text_vars", v) ∈ entries → ∃ texts, v = .list texts) :
    Fine (graphObjectOf type entries) := by
  have hshown : Usage.shownIn (graphObjectOf type entries) =
      Usage.inItems Usage.shownVariable ((Value.ofEntries entries).getOrNull "text_vars") := rfl
  have hvariable : ∀ v, Usage.Faultless (Usage.shownVariable v) := by
    intro v
    unfold Usage.shownVariable
    split
    · exact Usage.faultless_namedRead _
    · exact Usage.faultless_nil
  have hfaultless : Usage.Faultless (Usage.shownIn (graphObjectOf type entries)) := by
    rw [hshown, Value.getOrNull, Usage.get?_ofEntries]
    cases hfound : entries.lookup "text_vars" with
    | none => exact Usage.faultless_nil
    | some v =>
      obtain ⟨texts, rfl⟩ := h v (mem_of_lookup hfound)
      exact Usage.faultless_flatMap.mpr fun v _ => hvariable v
  exact .element hfaultless

theorem list_of_mem_propertyOf {key name : String} {items : List Value} {v : Value}
    (h : (name, v) ∈ propertyOf key items) : ∃ texts, v = .list texts := by
  unfold propertyOf at h
  split at h
  · cases h
  · cases mem_singleton.mp h
    exact ⟨items, rfl⟩

theorem not_mem_areaOf {items : List Value} {v : Value} : ("text_vars", v) ∉ areaOf items := by
  unfold areaOf
  split <;> simp

theorem fine_plainObject (type : String) (items : List Value) : Fine (plainObject type items) :=
  fine_graphObjectOf type fun _ => list_of_mem_propertyOf

theorem fine_areaObject (type : String) (items : List Value) : Fine (areaObject type items) := by
  refine fine_graphObjectOf type fun v hv => ?_
  rcases mem_append.mp hv with hv | hv
  · exact absurd hv not_mem_areaOf
  · exact list_of_mem_propertyOf hv

theorem textObject_kept {alternatives : List (List Grammar.Part)}
    (hkinds : Listed keywordKinds (pickIn kindHere alternatives))
    (hnames : Listed textPartNames (pickIn nameHere alternatives)) :
    noPromise.Kept ⟨"text_object", .node "text_object", alternatives⟩ where
  returns {row inner items} hrow hparts _ := by
    have hmade : constructed "text_object" items = textObject items :=
      constructed_of_mem (by repeat constructor) items
    have hmarked : List.Forall₂ Marked inner items := hparts.each hrow
      (fun _ _ hkind hv => marked_leaf (hkinds.mem hkind) hv)
      fun _ hname _ _ hbuilt => hbuilt.marked (hnames.mem hname)
    rw [labelOf, hmade, textObject_returns_iff, assembles_text, namedTexts_returns_iff .nil hmarked]
  made {row inner items v} _ _ _ hv := by
    rw [labelOf, constructed_of_mem (by repeat constructor)] at hv
    obtain ⟨found, -, heq⟩ := bind_eq_ok.mp hv
    cases heq
    refine ⟨fine_graphObjectOf _ fun v hv => ?_, trivial⟩
    simp only [mem_append] at hv
    rcases hv with (hv | hv) | hv
    · exact absurd hv not_mem_areaOf
    · exact list_of_mem_propertyOf hv
    · exact list_of_mem_propertyOf hv
  only hshape := nomatch hshape

end Texts

end SattLine.Build
