import SattLine.Proofs.Build.Connections

/-!
Declared variables as they are written and as they are built. Main statement: each declared name
becomes a variable with its own description and with what its group says, except that an initial
text that spells a modifier is taken for that modifier.
-/

namespace SattLine.Build

open List
open Syntax (Tree Token IsOf lexemes word)

/-- A declared name with its description. -/
structure Item where
  name : Token
  description : Option Token
  isName : name.kind = "NAME"
  isText : ∀ lexeme ∈ description, lexeme.kind = "STRING" ∨ lexeme.kind = "STRING_CRLF"

namespace Item

def tree (item : Item) : Tree :=
  .node "variable_item" (.leaf item.name :: item.description.toList.map .leaf)

def describes (item : Item) : Value :=
  (item.description.map fun lexeme => .text (unquoted lexeme.text)).getD .null

/-- The name and the description of the variable. -/
def declared (item : Item) : String × Value :=
  (item.name.text, item.describes)

end Item

/-- The modifiers of a group: their terminals and the texts that stand for them. -/
def modifierWords : List (String × String) :=
  [("CONST_KW", "Const"), ("STATE_KW", "State"), ("OPSAVE_KW", "OpSave"), ("SECURE_KW", "Secure")]

/-- A group of declarations: the names, the mark of global variables, the data type, the modifiers
and the initial value. -/
structure Group where
  items : List Item
  isGlobal : Bool
  marks : List Token
  type : Token
  modifiers : List Token
  init : Option Tree
  areMarks : marks.map Token.kind = if isGlobal then ["GLOBAL_KW"] else []
  isType : type.kind = "NAME"
  areModifiers : ∀ lexeme ∈ modifiers, lexeme.kind ∈ modifierWords.map Prod.fst

namespace Group

def tree (g : Group) : Tree :=
  .node "variable_group" (g.items.map Item.tree ++ (g.marks.map .leaf ++
    .leaf g.type :: (g.modifiers.map .leaf ++ g.init.toList)))

/-- A modifier holds if it is written, or if the initial value spells it. -/
def flagged (g : Group) (initial : Value) (kind : String) : Bool :=
  (g.modifiers.map Token.kind).contains kind || initial.text? == modifierWords.lookup kind

end Group

/-- The data types: the simple ones by their names without regard to case, all others as they are
written. -/
inductive IsTypeOf (name : String) : Value → Prop
  | simple (type : SimpleType) (h : type.name = Text.lower name) : IsTypeOf name (.simpleType type)
  | other (h : ∀ type : SimpleType, type.name ≠ Text.lower name) : IsTypeOf name (.text name)

/-- The value that stands behind the sign of an initial value. -/
inductive Starts : Option Tree → Value → Prop
  | none : Starts none .null
  | literal {marks : List Token} {source : Tree} {v : Value}
      (hmarks : (marks.map Token.kind).Sublist ["ASSIGN_INIT_VALUE", "DURATION_VALUE"])
      (hsource : Formed "value" source v) :
      Starts (some (.node "opt_var_init" (marks.map .leaf ++ [source]))) v
  | default {marks : List Token} {lexeme : Token}
      (hmarks : (marks.map Token.kind).Sublist ["ASSIGN_INIT_VALUE", "DURATION_VALUE"])
      (hkind : lexeme.kind = "DEFAULT") :
      Starts (some (.node "opt_var_init" (marks.map .leaf ++ [.leaf lexeme]))) .typeDefault

/-- The initial value that is kept: none for the default of a type, and none for a modifier. -/
def keptInitial (initial : Value) : Value :=
  match initial with
  | .typeDefault => .null
  | .text s => if (modifierWords.map Prod.snd).contains s then .null else .text s
  | v => v

/-- The modifiers of a group with an initial value. -/
def Group.allModifiers (g : Group) (initial : Value) : Modifiers :=
  ⟨g.flagged initial "CONST_KW", g.flagged initial "STATE_KW", g.flagged initial "OPSAVE_KW",
    g.flagged initial "SECURE_KW"⟩

/-- The variables that a group declares, one for each of its names. -/
def Group.Declares (g : Group) (declared : List Value) : Prop :=
  ∃ type initial, IsTypeOf g.type.text type ∧ Starts g.init initial ∧
    declared = g.items.map fun item => variableFrom type g.isGlobal (g.allModifiers initial)
      (keptInitial initial) item.declared

section Values

theorem exists_isTypeOf (name : String) :
    ∃ type, (Value.text name).dataTypeOf? = some type ∧ IsTypeOf name type := by
  rw [Value.dataTypeOf?]
  cases hfound : SimpleType.ofName? name with
  | none =>
    refine ⟨_, rfl, .other fun type => ?_⟩
    have hall := find?_eq_none.mp hfound type (by cases type <;> decide)
    simpa using hall
  | some type => exact ⟨_, rfl, .simple type (by simpa using find?_some hfound)⟩

def Modifiers.and (m : Modifiers) (words : List String) : Modifiers :=
  ⟨m.const || words.contains "Const", m.state || words.contains "State",
    m.opsave || words.contains "OpSave", m.secure || words.contains "Secure"⟩

variable {words : List String}

theorem readModifiers_eq (hwords : ∀ s ∈ words, s ∈ modifierWords.map Prod.snd)
    {rest : List Value} (hrest : ∀ v ∈ rest.head?, ∀ m, Modifiers.add? m v = none) (m : Modifiers) :
    readModifiers m (words.map .text ++ rest) = (m.and words, rest) := by
  induction words generalizing m with
  | nil =>
    have hm : m.and [] = m := by simp [Modifiers.and]
    cases rest with
    | nil => rw [hm]; rfl
    | cons v rest => rw [map_nil, nil_append, readModifiers, hrest v rfl m, hm]
  | cons s words ih =>
    obtain ⟨hs, hothers⟩ := forall_mem_cons.mp hwords
    simp only [modifierWords, map_cons, map_nil, mem_cons, not_mem_nil, or_false] at hs
    rcases hs with rfl | rfl | rfl | rfl
    all_goals
      refine (ih hothers _).trans ?_
      simp [Modifiers.and]

/-- The modifier that an initial value spells. -/
def spelled (initial : Value) : List String :=
  initial.text?.toList.filter fun s => (modifierWords.map Prod.snd).contains s

theorem add?_eq_none {s : String} (h : s ∉ modifierWords.map Prod.snd) (m : Modifiers) :
    m.add? (.text s) = none := by
  simp only [modifierWords, map_cons, map_nil, mem_cons, not_mem_nil, or_false, not_or] at h
  obtain ⟨hconst, hstate, hopsave, hsecure⟩ := h
  unfold Modifiers.add?
  split <;> simp_all [Value.text?]

/-- The modifiers and the initial value are told apart by their texts alone. -/
theorem readModifiers_initial (hwords : ∀ s ∈ words, s ∈ modifierWords.map Prod.snd)
    {initial : Value} (h : initial = .typeDefault ∨ IsLiteral initial) :
    ∃ rest, readModifiers {} (words.map .text ++ [initial]) =
      (Modifiers.and {} (words ++ spelled initial), rest) ∧ firstInitial rest = keptInitial initial := by
  have hplain : spelled initial = [] → (∀ m, Modifiers.add? m initial = none) →
      readModifiers {} (words.map .text ++ [initial]) =
        (Modifiers.and {} (words ++ spelled initial), [initial]) := by
    intro hnone hadd
    rw [hnone, append_nil]
    exact readModifiers_eq hwords (by simpa using hadd) {}
  rcases h with rfl | ⟨b, rfl⟩ | ⟨n, rfl⟩ | ⟨x, rfl⟩ | ⟨s, rfl⟩
  iterate 4
    · exact ⟨_, hplain rfl fun _ => rfl, rfl⟩
  · by_cases hs : s ∈ modifierWords.map Prod.snd
    · have hspelled : spelled (.text s) = [s] := filter_cons_of_pos (contains_iff_mem.mpr hs)
      refine ⟨[], ?_, (if_pos (contains_iff_mem.mpr hs)).symm⟩
      have hboth : ∀ w ∈ words ++ [s], w ∈ modifierWords.map Prod.snd :=
        forall_mem_append.mpr ⟨hwords, forall_mem_singleton.mpr hs⟩
      have hread := @readModifiers_eq _ hboth [] (by simp) {}
      simpa [hspelled] using hread
    · have hs' := mt contains_iff_mem.mp hs
      exact ⟨_, hplain (filter_cons_of_neg hs') (add?_eq_none hs), (if_neg hs').symm⟩

/-- The text of a modifier. -/
def wordOf (lexeme : Token) : String :=
  (modifierWords.lookup lexeme.kind).getD ""

/-- A modifier, and the text that it leaves. -/
def IsModifier (lexeme : Token) (v : Value) : Prop :=
  (lexeme.kind, wordOf lexeme) ∈ modifierWords ∧ .text (wordOf lexeme) = v

theorem isModifier_of_leaf {lexeme : Token} {v : Value}
    (h : lexeme.kind ∈ modifierWords.map Prod.fst) (hv : valueOf (.leaf lexeme) = .ok v) :
    IsModifier lexeme v := by
  rw [valueOf] at hv
  rw [IsModifier, wordOf]
  simp only [modifierWords, map_cons, map_nil, mem_cons, not_mem_nil, or_false] at h
  rcases h with h | h | h | h
  all_goals
    rw [h] at hv ⊢
    cases hv
    exact ⟨by decide, rfl⟩

theorem Group.allModifiers_eq (g : Group) (initial : Value)
    (hmodifiers : ∀ lexeme ∈ g.modifiers, (lexeme.kind, wordOf lexeme) ∈ modifierWords) :
    Modifiers.and {} (g.modifiers.map wordOf ++ spelled initial) = g.allModifiers initial := by
  have hinjective : ∀ p ∈ modifierWords, ∀ q ∈ modifierWords, p.2 = q.2 ↔ p.1 = q.1 := by decide
  have hone : ∀ p ∈ modifierWords, (g.modifiers.map wordOf ++ spelled initial).contains p.2 =
      ((g.modifiers.map Token.kind).contains p.1 || initial.text? == some p.2) := by
    intro p hp
    have hwritten : p.2 ∈ g.modifiers.map wordOf ↔ p.1 ∈ g.modifiers.map Token.kind := by
      simp only [mem_map]
      exact exists_congr fun lexeme => and_congr_right fun hmem =>
        hinjective _ (hmodifiers lexeme hmem) p hp
    have hspelled : p.2 ∈ spelled initial ↔ initial.text? = some p.2 := by
      simp [spelled, mem_filter, mem_map_of_mem hp]
    rw [Bool.eq_iff_iff]
    simp only [contains_iff_mem, mem_append, Bool.or_eq_true, beq_iff_eq, hwritten, hspelled]
  have hconst := hone ("CONST_KW", "Const") (by decide)
  have hstate := hone ("STATE_KW", "State") (by decide)
  have hopsave := hone ("OPSAVE_KW", "OpSave") (by decide)
  have hsecure := hone ("SECURE_KW", "Secure") (by decide)
  rw [Modifiers.and, hconst, hstate, hopsave, hsecure]
  rfl

end Values

section Parts

variable {alternatives : List (List Grammar.Part)} {inner : List Tree} {items : List Value}

theorem Rounds.exists_map {spec : Spec} {α : Type} (h : Rounds spec alternatives inner items)
    (tree : α → Tree) (R : α → Value → Prop)
    (hround : ∀ row ∈ alternatives, ∀ first values, Builds spec row first values →
      ∃ a v, first = [tree a] ∧ values = [v] ∧ R a v) :
    ∃ as : List α, inner = as.map tree ∧ Forall₂ R as items := by
  induction h with
  | nil => exact ⟨[], rfl, .nil⟩
  | cons hrow hfirst _ ih =>
    obtain ⟨a, v, rfl, rfl, hv⟩ := hround _ hrow _ _ hfirst
    obtain ⟨as, rfl, has⟩ := ih
    exact ⟨a :: as, rfl, .cons hv has⟩

theorem map_eq_of_forall₂ {α β : Type} {f : α → β} {as : List α} {bs : List β}
    (h : Forall₂ (fun a b => f a = b) as bs) : as.map f = bs := by
  rwa [← forall₂_map_left_iff, forall₂_eq_eq_eq] at h

variable {tree : Tree} {v : Value} {rest : List Grammar.Part}

theorem Formed.item (h : Formed "variable_item" tree v) :
    ∃ item : Item, tree = item.tree ∧ v = declaredItem item.declared := by
  obtain ⟨_, _, rfl, hparts, hmade⟩ :=
    h.only (by repeat constructor) (by repeat constructor)
  obtain ⟨name, v, _, _, rfl, rfl, hname, hv, hrest⟩ := hparts.of_token
  rw [valueOf, hname] at hv
  cases hv
  rcases hrest.of_opt with ⟨_, hrow, _, _, _, _, rfl, rfl, hfirst, hnil⟩ | hnil
  · obtain ⟨lexeme, w, rfl, rfl, hkind, hw⟩ := hfirst.of_kinds ["STRING", "STRING_CRLF"] hrow
    have hkind := mem_pair.mp hkind
    cases hnil
    cases text_of_string hkind hw
    cases hmade
    exact ⟨⟨name, some lexeme, hname, by simpa using hkind⟩, rfl, rfl⟩
  · cases hnil
    cases hmade
    exact ⟨⟨name, none, hname, by simp⟩, rfl, rfl⟩

theorem Formed.starts (h : Formed "opt_var_init" tree v) :
    Starts (some tree) v ∧ (v = .typeDefault ∨ IsLiteral v) := by
  obtain ⟨_, _, rfl, hparts, hmade⟩ :=
    h.only (by repeat constructor) (by repeat constructor)
  obtain ⟨sign, _, _, _, rfl, rfl, hsign, -, hrest⟩ := hparts.of_token
  obtain ⟨isDuration, durations, _, _, rfl, rfl, hdurations, hrest⟩ :=
    hrest.of_flag (v := .null) fun lexeme hkind => by rw [valueOf, hkind]; rfl
  have hmarks : ((sign :: durations).map Token.kind).Sublist
      ["ASSIGN_INIT_VALUE", "DURATION_VALUE"] := by
    rw [map_cons, hsign, hdurations]
    cases isDuration <;> decide
  obtain ⟨_, hrow, _, _, _, _, rfl, rfl, hchosen, hnil⟩ := hrest.of_oneOf
  cases hnil
  rcases mem_pair.mp hrow with rfl | rfl
  · obtain ⟨source, w, rfl, rfl, hsource⟩ := hchosen.of_lone
    obtain rfl : w = v := by cases isDuration <;> exact Except.ok.inj hmade
    exact ⟨.literal hmarks hsource, .inr (hsource.hasForm (by decide))⟩
  · obtain ⟨lexeme, w, _, _, rfl, rfl, hkind, hw, hnil⟩ := hchosen.of_token
    cases hnil
    rw [valueOf, hkind] at hw
    cases hw
    obtain rfl : .typeDefault = v := by cases isDuration <;> exact Except.ok.inj hmade
    exact ⟨.default hmarks hkind, .inl rfl⟩

/-- What the end of a group leaves behind the modifiers. -/
theorem Builds.started
    (h : Builds Formed [.opt [[.rule "opt_var_init"]], .mark "SEMICOLON"] inner items)
    {words : List String} (hwords : ∀ s ∈ words, s ∈ modifierWords.map Prod.snd) :
    ∃ init initial rest, inner = Option.toList init ∧ Starts init initial ∧
      readModifiers {} ((words.map Value.text ++ items).filter fun v => !v.isNull) =
        (Modifiers.and {} (words ++ spelled initial), rest) ∧
      firstInitial rest = keptInitial initial := by
  have hkept : ∀ items : List Value, (words.map Value.text ++ items).filter (fun v => !v.isNull) =
      words.map Value.text ++ items.filter fun v => !v.isNull := by
    intro items
    rw [filter_append, filter_eq_self.mpr (forall_mem_map.mpr fun _ _ => rfl)]
  rcases h.of_opt with ⟨_, hrow, _, _, _, _, rfl, rfl, hfirst, hnil⟩ | hnil
  · cases mem_singleton.mp hrow
    cases hnil.of_mark
    obtain ⟨tree, v, rfl, rfl, hv⟩ := hfirst.of_lone
    obtain ⟨hstarts, hform⟩ := hv.starts
    obtain ⟨rest, hread, hrest⟩ := readModifiers_initial hwords hform
    have hnull : [v].filter (fun v => !v.isNull) = [v] := by
      rcases hform with rfl | ⟨b, rfl⟩ | ⟨n, rfl⟩ | ⟨x, rfl⟩ | ⟨s, rfl⟩ <;> rfl
    refine ⟨some tree, v, rest, rfl, hstarts, ?_, hrest⟩
    rw [hkept, append_nil, hnull, hread]
  · cases hnil.of_mark
    refine ⟨none, .null, [], rfl, .none, ?_, rfl⟩
    rw [hkept, filter_nil, readModifiers_eq hwords (by simp)]
    simp [spelled, Value.text?]

theorem Builds.of_items (h : Builds Formed
      (.rule "variable_item" :: .many [[.mark "COMMA", .rule "variable_item"]] :: rest) inner items) :
    ∃ (declared : List Item) (others : List Tree) (following : List Value),
      inner = declared.map Item.tree ++ others ∧
        items = (declared.map Item.declared).map declaredItem ++ following ∧
          Builds Formed rest others following := by
  obtain ⟨_, _, _, _, rfl, rfl, hfirst, hmany⟩ := h.of_rule
  obtain ⟨_, _, trees, following, rfl, rfl, hrounds, hrest⟩ := hmany.of_many
  obtain ⟨first, rfl, rfl⟩ := hfirst.item
  obtain ⟨others, rfl, hothers⟩ := hrounds.exists_map Item.tree
    (fun item v => declaredItem item.declared = v) fun _ hrow _ _ hround => by
      cases mem_singleton.mp hrow
      obtain ⟨_, _, rfl, rfl, hv⟩ := hround.of_mark.of_lone
      obtain ⟨item, rfl, rfl⟩ := hv.item
      exact ⟨item, _, rfl, rfl, rfl⟩
  obtain rfl := map_eq_of_forall₂ hothers
  exact ⟨first :: others, trees, following, rfl, by simp, hrest⟩

theorem Builds.of_modifiers
    (h : Builds Formed (.many [[.token "CONST_KW"], [.token "STATE_KW"], [.token "OPSAVE_KW"],
      [.token "SECURE_KW"]] :: rest) inner items) :
    ∃ (modifiers : List Token) (others : List Tree) (following : List Value),
      inner = modifiers.map .leaf ++ others ∧
        items = (modifiers.map wordOf).map Value.text ++ following ∧
        (∀ lexeme ∈ modifiers, (lexeme.kind, wordOf lexeme) ∈ modifierWords) ∧
          Builds Formed rest others following := by
  obtain ⟨_, _, trees, following, rfl, rfl, hrounds, hrest⟩ := h.of_many
  obtain ⟨modifiers, rfl, hmodifiers⟩ := hrounds.exists_map .leaf IsModifier
    fun _ hrow _ _ hround => by
      obtain ⟨lexeme, v, rfl, rfl, hkind, hv⟩ :=
        hround.of_kinds (modifierWords.map Prod.fst) hrow
      exact ⟨lexeme, v, rfl, rfl, isModifier_of_leaf hkind hv⟩
  obtain ⟨hwords, hvalues⟩ := (forall₂_and_left _ _).mp hmodifiers
  obtain rfl := map_eq_of_forall₂ hvalues
  exact ⟨modifiers, trees, following, rfl, by simp, hwords, hrest⟩

theorem Formed.group (h : Formed "variable_group" tree v) :
    ∃ (g : Group) (declared : List Value),
      tree = g.tree ∧ v = .list declared ∧ g.Declares declared := by
  obtain ⟨_, _, rfl, hparts, hmade⟩ :=
    h.only (by repeat constructor) (by repeat constructor)
  obtain ⟨names, _, _, rfl, rfl, hmark⟩ := hparts.of_items
  obtain ⟨isGlobal, marks, _, _, rfl, rfl, hmarks, hname⟩ :=
    hmark.of_mark.of_flag (v := .bool true) fun lexeme hkind => by rw [valueOf, hkind]; rfl
  obtain ⟨type, w, _, _, rfl, rfl, htype, hw, hmany⟩ := hname.of_token
  obtain ⟨modifiers, _, _, rfl, rfl, hmodifiers, hend⟩ := hmany.of_modifiers
  rw [valueOf, htype] at hw
  cases hw
  obtain ⟨init, initial, rest, rfl, hstarts, hread, hrest⟩ := hend.started
    (forall_mem_map.mpr fun lexeme hmem => mem_map_of_mem (hmodifiers lexeme hmem))
  obtain ⟨dataType, hdataType, hisType⟩ := exists_isTypeOf type.text
  let g : Group := ⟨names, isGlobal, marks, type, modifiers, init, hmarks, htype,
    fun lexeme hmem => mem_map_of_mem (hmodifiers lexeme hmem)⟩
  rw [g.allModifiers_eq initial hmodifiers] at hread
  cases (variableGroup_eq _ isGlobal hdataType hread).symm.trans hmade
  refine ⟨g, _, rfl, rfl, dataType, initial, hisType, hstarts, ?_⟩
  rw [hrest, map_map]
  rfl

end Parts

theorem variableList_eq {groups : List Group} {items : List Value}
    (h : Forall₂ (fun g v => ∃ declared, v = .list declared ∧ g.Declares declared) groups items) :
    ∃ declared : List (List Value), Forall₂ Group.Declares groups declared ∧
      variableList items = .tree "var_list" false declared.flatten := by
  induction h with
  | nil => exact ⟨[], .nil, rfl⟩
  | cons hfirst _ ih =>
    obtain ⟨first, rfl, hfirst⟩ := hfirst
    obtain ⟨declared, hdeclared, heq⟩ := ih
    refine ⟨first :: declared, .cons hfirst hdeclared, ?_⟩
    rw [variableList, Value.tree.injEq] at heq ⊢
    rw [flatMap_cons, heq.2.2, flatten_cons]
    exact ⟨rfl, rfl, rfl⟩

/-- A list of declarations has a value just if its tree can be constructed. Each declared name
becomes one variable, in order, with its own description and with the data type, the marks and the
initial value of its group. The one exception is an initial text that spells a modifier: it is taken
for the modifier and lost as an initial value. -/
theorem declarations_expanded {tree : Tree} (h : IsOf "variable_list" tree)
    (hlexed : ∀ lexeme ∈ lexemes tree, lexeme.Lexed) :
    ((∃ v, valueOf tree = .ok v) ↔ Constructible tree) ∧
      ∀ v, valueOf tree = .ok v → ∃ (groups : List Group) (declared : List (List Value)),
        tree = .node "variable_list" (groups.map Group.tree) ∧
        Forall₂ Group.Declares groups declared ∧ v = .tree "var_list" false declared.flatten := by
  refine ⟨valueOf_returns_iff h hlexed, fun v hv => ?_⟩
  obtain ⟨_, _, rfl, hparts, hmade⟩ :=
    Formed.only ⟨h, hv⟩ (by repeat constructor) (by repeat constructor)
  obtain ⟨_, _, _, _, rfl, rfl, hrounds, hnil⟩ := hparts.of_some1
  cases hnil
  obtain ⟨groups, rfl, hgroups⟩ := hrounds.exists_map Group.tree
    (fun g v => ∃ declared, v = .list declared ∧ g.Declares declared) fun _ hrow _ _ hround => by
      cases mem_singleton.mp hrow
      obtain ⟨_, _, rfl, rfl, hv⟩ := hround.of_lone
      obtain ⟨g, declared, rfl, rfl, hg⟩ := hv.group
      exact ⟨g, _, rfl, rfl, declared, rfl, hg⟩
  obtain ⟨declared, hdeclared, heq⟩ := variableList_eq hgroups
  rw [append_nil, heq] at hmade
  cases hmade
  exact ⟨groups, declared, by rw [append_nil], hdeclared, rfl⟩

/-! A string whose initial value is written as a text. -/

/-- The string `a` with the text as its initial value. -/
def stringTree (text : String) : Tree :=
  .node "variable_list" [.node "variable_group" [.node "variable_item" [word "NAME" "a"],
    word "NAME" "string", .node "opt_var_init" [word "ASSIGN_INIT_VALUE" ":=",
      .node "value" [word "STRING" text]]]]

/-- An initial text that is no modifier is kept. -/
theorem initial_text_kept : ∃ (groups : List Group) (declared : List (List Value)),
    stringTree "\"x\"" = .node "variable_list" (groups.map Group.tree) ∧
      Forall₂ Group.Declares groups declared ∧
        valueOf (stringTree "\"x\"") = .ok (.tree "var_list" false declared.flatten) := by
  have htree : IsOf "variable_list" (stringTree "\"x\"") :=
    Syntax.isOf_of_behind 20 (by decide +kernel)
  have hlexed : ∀ lexeme ∈ lexemes (stringTree "\"x\""), lexeme.Lexed :=
    Syntax.lexed_of_isWhole (by decide +kernel)
  obtain ⟨groups, declared, hgroups, hdeclared, hv⟩ := (declarations_expanded htree hlexed).2 _ rfl
  exact ⟨groups, declared, hgroups, hdeclared, by rw [← hv]; rfl⟩

/-- One that spells a modifier is taken for it. -/
theorem initial_text_taken_for_modifier : valueOf (stringTree "\"Const\"") =
    .ok (.tree "var_list" false
      [variableFrom (.simpleType .string) false { const := true } .null ("a", .null)]) :=
  rfl

end SattLine.Build
