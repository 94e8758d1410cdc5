import SattLine.Build.Rule
import SattLine.Proofs.Syntax.Sound

/-!
Values of syntax trees, rule by rule. Suppose that each rule's construction, given values of its
parts that are as specified, gives a value that is as specified. Then the value of every syntax
tree of the language is as specified.
-/

namespace SattLine.Build

open List
open Grammar (Part Rule)
open Syntax (Tree Forms IsOf ruleNamed? ruleNamed?_eq_some_iff leave leave_eq within rowWithin
  rowWithin_of_mem)

/-- What is specified of the trees and values of each rule. -/
abbrev Spec := String → Tree → Value → Prop

/-- `Builds spec row trees items`: the trees and their values are those of a row of places, and
where a rule stands its tree and value are as specified. -/
inductive Builds (spec : Spec) : List Part → List Tree → List Value → Prop
  | nil : Builds spec [] [] []
  | token {kind rest lexeme v trees items} (hkind : lexeme.kind = kind)
      (hv : valueOf (.leaf lexeme) = .ok v) (h : Builds spec rest trees items) :
      Builds spec (.token kind :: rest) (.leaf lexeme :: trees) (v :: items)
  | mark {kind rest trees items} (h : Builds spec rest trees items) :
      Builds spec (.mark kind :: rest) trees items
  | rule {name rest tree v trees items} (hv : spec name tree v)
      (h : Builds spec rest trees items) :
      Builds spec (.rule name :: rest) (tree :: trees) (v :: items)
  | oneOf {alternatives row rest first values trees items} (hrow : row ∈ alternatives)
      (hfirst : Builds spec row first values) (h : Builds spec rest trees items) :
      Builds spec (.oneOf alternatives :: rest) (first ++ trees) (values ++ items)
  | opt {alternatives row rest first values trees items} (hrow : row ∈ alternatives)
      (hfirst : Builds spec row first values) (h : Builds spec rest trees items) :
      Builds spec (.opt alternatives :: rest) (first ++ trees) (values ++ items)
  | skip {alternatives rest trees items} (h : Builds spec rest trees items) :
      Builds spec (.opt alternatives :: rest) trees items
  | more {alternatives row rest first values trees items} (hrow : row ∈ alternatives)
      (hfirst : Builds spec row first values)
      (h : Builds spec (.many alternatives :: rest) trees items) :
      Builds spec (.many alternatives :: rest) (first ++ trees) (values ++ items)
  | stop {alternatives rest trees items} (h : Builds spec rest trees items) :
      Builds spec (.many alternatives :: rest) trees items
  | some1 {alternatives row rest first values trees items} (hrow : row ∈ alternatives)
      (hfirst : Builds spec row first values)
      (h : Builds spec (.many alternatives :: rest) trees items) :
      Builds spec (.some1 alternatives :: rest) (first ++ trees) (values ++ items)

variable {tree : Tree} {rest inner : List Tree} {items : List Value} {v : Value}
  {lexeme : Syntax.Token} {spec : Spec} {name : String}

theorem valuesOf_cons_eq_ok :
    valuesOf (tree :: rest) = .ok items ↔
      ∃ v others, valueOf tree = .ok v ∧ valuesOf rest = .ok others ∧ items = v :: others := by
  rw [valuesOf]
  cases valueOf tree with
  | error e => simp [bind, Except.bind]
  | ok v =>
    cases valuesOf rest with
    | error e => simp [bind, Except.bind]
    | ok others =>
      simp [bind, Except.bind, pure, Except.pure, eq_comm]

theorem valuesOf_append_eq_ok {first : List Tree} (h : valuesOf (first ++ rest) = .ok items) :
    ∃ values others, valuesOf first = .ok values ∧ valuesOf rest = .ok others ∧
      items = values ++ others := by
  induction first generalizing items with
  | nil => exact ⟨[], items, rfl, h, rfl⟩
  | cons tree more ih =>
    obtain ⟨v, following, hv, hmore, rfl⟩ := valuesOf_cons_eq_ok.mp h
    obtain ⟨values, others, hvalues, hothers, rfl⟩ := ih hmore
    exact ⟨v :: values, others, valuesOf_cons_eq_ok.mpr ⟨v, values, hv, hvalues, rfl⟩, hothers,
      rfl⟩

/-- What becomes of the values of the parts of a node; without a construction they stay. -/
def constructed (label : String) (items : List Value) : Result Value :=
  (rule? label items).getD (.ok (.tree label true items))

variable {label : String} {trees : List Tree} {alternatives : List (List Part)}
  {shape : Grammar.Shape}

theorem valueOf_node_eq_ok {children : List Tree} :
    valueOf (.node label children) = .ok v ↔
      ∃ items, valuesOf children = .ok items ∧ constructed label items = .ok v := by
  rw [valueOf]
  cases valuesOf children with
  | error e => simp [bind, Except.bind]
  | ok items =>
    simp only [bind, Except.bind, constructed]
    cases hrule : rule? label items with
    | none => simp [hrule, pure, Except.pure]
    | some result => cases result <;> simp [hrule, blame]

theorem real_of_leaf (hkind : lexeme.kind = "REAL") (hv : valueOf (.leaf lexeme) = .ok v) :
    ∃ x, v = .real x := by
  rw [valueOf, hkind] at hv
  cases hread : Number.readDouble? lexeme.text with
  | none =>
    simp only [lexemeValue?, hread] at hv
    cases hv
  | some x =>
    simp only [lexemeValue?, hread] at hv
    cases hv
    exact ⟨x, rfl⟩

theorem readInt_of_leaf (hkind : lexeme.kind = "SIGNED_INT") (hv : valueOf (.leaf lexeme) = .ok v) :
    ∃ n, v = .int n ∧ Number.readInt? lexeme.text = some n := by
  rw [valueOf, hkind] at hv
  cases hread : Number.readInt? lexeme.text with
  | none =>
    simp only [lexemeValue?, hread] at hv
    cases hv
  | some n =>
    simp only [lexemeValue?, hread] at hv
    cases hv
    exact ⟨n, rfl, rfl⟩

theorem int_of_leaf (hkind : lexeme.kind = "SIGNED_INT") (hv : valueOf (.leaf lexeme) = .ok v) :
    ∃ n, v = .int n :=
  (readInt_of_leaf hkind hv).imp fun _ h => h.1

/-- What the value of a lexeme may be. -/
inductive Lexical : Value → Prop
  | null : Lexical .null
  | bool (b : Bool) : Lexical (.bool b)
  | int (n : Int) : Lexical (.int n)
  | real (x : Number.Double) : Lexical (.real x)
  | text (s : String) : Lexical (.text s)
  | default : Lexical .typeDefault
  | zoomable : Lexical (Value.ofEntries [("Zoomable", .bool true)])
  | token (kind text : String) : Lexical (.token kind text)

theorem lexical_of_result {kind text : String} {result : Result Value}
    (hfound : lexemeValue? kind text = some result) (hv : result = .ok v) : Lexical v := by
  unfold lexemeValue? at hfound
  split at hfound
  case h_4 =>
    cases hfound
    split at hv <;> cases hv
    exact .int _
  case h_5 =>
    cases hfound
    split at hv <;> cases hv
    exact .real _
  case h_10 =>
    split at hfound
    · cases hfound
      cases hv
      exact .text _
    · split at hfound <;> cases hfound
      cases hv
      exact .null
  all_goals
    cases hfound
    cases hv
    constructor

theorem lexical_of_leaf (hv : valueOf (.leaf lexeme) = .ok v) : Lexical v := by
  rw [valueOf] at hv
  cases hfound : lexemeValue? lexeme.kind lexeme.text with
  | none =>
    simp only [hfound] at hv
    cases hv
    exact .token _ _
  | some result =>
    simp only [hfound] at hv
    cases hresult : result with
    | error cause =>
      rw [hresult] at hv
      cases hv
    | ok w =>
      rw [hresult] at hv
      cases hv
      exact lexical_of_result hfound hresult

/-- Each rule's construction keeps to the specification. -/
def Spec.Kept (spec : Spec) : Prop :=
  ∀ ⦃name rule row inner items tree v⦄, ruleNamed? name = some rule → row ∈ rule.alternatives →
    Builds spec row inner items → valuesOf inner = .ok items → leave rule.shape inner = [tree] →
    valueOf tree = .ok v → spec name tree v

/-- The values of all trees of a row of places are as specified. -/
theorem Spec.Kept.builds (hspec : spec.Kept) {row : List Part} (h : Forms row trees)
    (hitems : valuesOf trees = .ok items) : Builds spec row trees items := by
  induction h generalizing items with
  | nil =>
    cases hitems
    exact .nil
  | token hkind _ ih =>
    obtain ⟨v, others, hv, hothers, rfl⟩ := valuesOf_cons_eq_ok.mp hitems
    exact .token hkind hv (ih hothers)
  | mark _ ih => exact .mark (ih hitems)
  | @rule name rule row rest inner trees hrule hrow _ _ ihinner ih =>
    obtain ⟨tree, hleave, hshape⟩ := leave_eq hrule inner
    rw [hleave] at hitems ⊢
    obtain ⟨v, others, hv, hothers, rfl⟩ := valuesOf_cons_eq_ok.mp hitems
    refine .rule ?_ (ih hothers)
    rcases hshape with rfl | ⟨rfl, -⟩
    · obtain ⟨values, hvalues, -⟩ := valueOf_node_eq_ok.mp hv
      exact hspec hrule hrow (ihinner hvalues) hvalues hleave hv
    · have hvalues : valuesOf [tree] = .ok [v] :=
        valuesOf_cons_eq_ok.mpr ⟨v, [], hv, rfl, rfl⟩
      exact hspec hrule hrow (ihinner hvalues) hvalues hleave hv
  | oneOf hrow _ _ ihfirst ih =>
    obtain ⟨values, others, hvalues, hothers, rfl⟩ := valuesOf_append_eq_ok hitems
    exact .oneOf hrow (ihfirst hvalues) (ih hothers)
  | opt hrow _ _ ihfirst ih =>
    obtain ⟨values, others, hvalues, hothers, rfl⟩ := valuesOf_append_eq_ok hitems
    exact .opt hrow (ihfirst hvalues) (ih hothers)
  | skip _ ih => exact .skip (ih hitems)
  | more hrow _ _ ihfirst ih =>
    obtain ⟨values, others, hvalues, hothers, rfl⟩ := valuesOf_append_eq_ok hitems
    exact .more hrow (ihfirst hvalues) (ih hothers)
  | stop _ ih => exact .stop (ih hitems)
  | some1 hrow _ _ ihfirst ih =>
    obtain ⟨values, others, hvalues, hothers, rfl⟩ := valuesOf_append_eq_ok hitems
    exact .some1 hrow (ihfirst hvalues) (ih hothers)

/-- The value of every syntax tree of a rule is as specified. -/
theorem Spec.Kept.holds (hspec : spec.Kept) (h : IsOf name tree) (hv : valueOf tree = .ok v) :
    spec name tree v := by
  have hbuilds := hspec.builds h (valuesOf_cons_eq_ok.mpr ⟨v, [], hv, rfl, rfl⟩)
  cases hbuilds with
  | rule hv _ => exact hv

/-- A tree of a rule and its value. -/
def Formed : Spec :=
  fun name tree v => IsOf name tree ∧ valueOf tree = .ok v

theorem Builds.forms {row : List Part} (h : Builds Formed row trees items) : Forms row trees := by
  induction h with
  | nil => exact .nil
  | token hkind _ _ ih => exact .token hkind ih
  | mark _ ih => exact .mark ih
  | rule hv _ ih => exact .cons hv.1 ih
  | oneOf hrow _ _ ihfirst ih => exact .oneOf hrow ihfirst ih
  | opt hrow _ _ ihfirst ih => exact .opt hrow ihfirst ih
  | skip _ ih => exact .skip ih
  | more hrow _ _ ihfirst ih => exact .more hrow ihfirst ih
  | stop _ ih => exact .stop ih
  | some1 hrow _ _ ihfirst ih => exact .some1 hrow ihfirst ih

theorem formed_kept : Formed.Kept :=
  fun _ _ _ _ _ _ _ hrule hrow hparts _ hleave hv => ⟨.of_row hrule hrow hparts.forms hleave, hv⟩

/-- The parts of a tree with a value, if its rule leaves nodes of its own. -/
theorem Formed.parts (h : Formed name tree v)
    (hrule : ⟨name, .node label, alternatives⟩ ∈ Grammar.rules) :
    ∃ row ∈ alternatives, ∃ inner items, tree = .node label inner ∧ Builds Formed row inner items ∧
      constructed label items = .ok v := by
  obtain ⟨_, row, inner, hfound, hrow, hforms, hleave⟩ := h.1.parts
  cases (ruleNamed?_eq_some_iff.mpr ⟨hrule, rfl⟩).symm.trans hfound
  cases singleton_injective hleave
  obtain ⟨items, hitems, hmade⟩ := valueOf_node_eq_ok.mp h.2
  exact ⟨row, hrow, inner, items, rfl, formed_kept.builds hforms hitems, hmade⟩

/-- The trees and values of the parts of a rule. -/
def OfRule (spec : Spec) (name : String) (inner : List Tree) (items : List Value) : Prop :=
  ∃ rule row, ruleNamed? name = some rule ∧ row ∈ rule.alternatives ∧
    Builds spec row inner items

theorem OfRule.row (h : OfRule spec name inner items)
    (hrule : ⟨name, shape, alternatives⟩ ∈ Grammar.rules) :
    ∃ row ∈ alternatives, Builds spec row inner items := by
  obtain ⟨_, row, hfound, hrow, hparts⟩ := h
  cases (ruleNamed?_eq_some_iff.mpr ⟨hrule, rfl⟩).symm.trans hfound
  exact ⟨row, hrow, hparts⟩

theorem OfRule.only {row : List Part} (h : OfRule spec name inner items)
    (hrule : ⟨name, shape, [row]⟩ ∈ Grammar.rules) : Builds spec row inner items := by
  obtain ⟨_, hrow, hparts⟩ := h.row hrule
  cases mem_singleton.mp hrow
  exact hparts

/-- `Rounds spec alternatives trees items`: the trees and values of any number of rounds of a
repeated part. -/
inductive Rounds (spec : Spec) (alternatives : List (List Part)) : List Tree → List Value → Prop
  | nil : Rounds spec alternatives [] []
  | cons {row first values trees items} (hrow : row ∈ alternatives)
      (hfirst : Builds spec row first values) (h : Rounds spec alternatives trees items) :
      Rounds spec alternatives (first ++ trees) (values ++ items)

section Inversion

variable {spec : Spec} {rest : List Part} {trees : List Tree} {items : List Value}

theorem Builds.of_nil (h : Builds spec [] trees items) : trees = [] ∧ items = [] := by
  cases h
  exact ⟨rfl, rfl⟩

variable {kind name : String} {alternatives : List (List Part)}

theorem Builds.of_mark (h : Builds spec (.mark kind :: rest) trees items) :
    Builds spec rest trees items := by
  cases h with
  | mark h => exact h

theorem Builds.of_token (h : Builds spec (.token kind :: rest) trees items) :
    ∃ lexeme v others following, trees = .leaf lexeme :: others ∧ items = v :: following ∧
      lexeme.kind = kind ∧ valueOf (.leaf lexeme) = .ok v ∧ Builds spec rest others following := by
  cases h with
  | token hkind hv h => exact ⟨_, _, _, _, rfl, rfl, hkind, hv, h⟩

/-- A lexeme without a value of its own stays as it is. -/
theorem Builds.of_keyword (h : Builds spec (.token kind :: rest) trees items)
    (hkeeps : ∀ text, lexemeValue? kind text = none) :
    ∃ lexeme text others following, trees = .leaf lexeme :: others ∧
      items = .token kind text :: following ∧ Builds spec rest others following := by
  obtain ⟨lexeme, v, others, following, rfl, rfl, hkind, hv, hrest⟩ := h.of_token
  rw [valueOf, hkind, hkeeps] at hv
  cases hv
  exact ⟨_, _, _, _, rfl, rfl, hrest⟩

theorem Builds.of_name (h : Builds spec (.token "NAME" :: rest) trees items) :
    ∃ lexeme text others following, trees = .leaf lexeme :: others ∧
      items = .text text :: following ∧ Builds spec rest others following := by
  obtain ⟨lexeme, v, others, following, rfl, rfl, hkind, hv, hrest⟩ := h.of_token
  rw [valueOf, hkind] at hv
  cases hv
  exact ⟨_, _, _, _, rfl, rfl, hrest⟩

theorem Builds.of_rule (h : Builds spec (.rule name :: rest) trees items) :
    ∃ tree v others following, trees = tree :: others ∧ items = v :: following ∧
      spec name tree v ∧ Builds spec rest others following := by
  cases h with
  | rule hv h => exact ⟨_, _, _, _, rfl, rfl, hv, h⟩

theorem Builds.of_lone (h : Builds spec [.rule name] trees items) :
    ∃ tree v, trees = [tree] ∧ items = [v] ∧ spec name tree v := by
  obtain ⟨tree, v, _, _, rfl, rfl, hv, hnil⟩ := h.of_rule
  cases hnil
  exact ⟨tree, v, rfl, rfl, hv⟩

variable {row : List Part}

theorem Builds.of_names (h : Builds spec row trees items) (names : List String)
    (hrow : row ∈ names.map fun name => [.rule name]) :
    ∃ name ∈ names, ∃ tree v, trees = [tree] ∧ items = [v] ∧ spec name tree v := by
  obtain ⟨name, hname, rfl⟩ := mem_map.mp hrow
  exact ⟨name, hname, h.of_lone⟩

theorem Builds.of_kinds (h : Builds spec row trees items) (kinds : List String)
    (hrow : row ∈ kinds.map fun kind => [.token kind]) :
    ∃ lexeme v, trees = [.leaf lexeme] ∧ items = [v] ∧ lexeme.kind ∈ kinds ∧
      valueOf (.leaf lexeme) = .ok v := by
  obtain ⟨kind, hkind, rfl⟩ := mem_map.mp hrow
  obtain ⟨lexeme, v, _, _, rfl, rfl, rfl, hv, hnil⟩ := h.of_token
  cases hnil
  exact ⟨lexeme, v, rfl, rfl, hkind, hv⟩

theorem Builds.of_oneOf (h : Builds spec (.oneOf alternatives :: rest) trees items) :
    ∃ row ∈ alternatives, ∃ first values others following, trees = first ++ others ∧
      items = values ++ following ∧ Builds spec row first values ∧
        Builds spec rest others following := by
  cases h with
  | oneOf hrow hfirst h => exact ⟨_, hrow, _, _, _, _, rfl, rfl, hfirst, h⟩

theorem Builds.of_opt (h : Builds spec (.opt alternatives :: rest) trees items) :
    (∃ row ∈ alternatives, ∃ first values others following, trees = first ++ others ∧
      items = values ++ following ∧ Builds spec row first values ∧
        Builds spec rest others following) ∨ Builds spec rest trees items := by
  cases h with
  | opt hrow hfirst h => exact .inl ⟨_, hrow, _, _, _, _, rfl, rfl, hfirst, h⟩
  | skip h => exact .inr h

theorem Builds.of_many (h : Builds spec (.many alternatives :: rest) trees items) :
    ∃ first values others following, trees = first ++ others ∧ items = values ++ following ∧
      Rounds spec alternatives first values ∧ Builds spec rest others following := by
  generalize hparts : Part.many alternatives :: rest = parts at h
  induction h with
  | more hrow hfirst _ _ ih =>
    cases hparts
    obtain ⟨first, values, others, following, rfl, rfl, hrounds, hrest⟩ := ih rfl
    exact ⟨_, _, others, following, (append_assoc ..).symm, (append_assoc ..).symm,
      .cons hrow hfirst hrounds, hrest⟩
  | stop h _ =>
    cases hparts
    exact ⟨[], [], _, _, rfl, rfl, .nil, h⟩
  | _ => cases hparts

theorem Builds.of_some1 (h : Builds spec (.some1 alternatives :: rest) trees items) :
    ∃ first values others following, trees = first ++ others ∧ items = values ++ following ∧
      Rounds spec alternatives first values ∧ Builds spec rest others following := by
  cases h with
  | some1 hrow hfirst h => exact (Builds.more hrow hfirst h).of_many

theorem Rounds.forall_items {P : Value → Prop} (hP : ∀ tree v, spec name tree v → P v)
    (h : Rounds spec [[.rule name]] trees items) : ∀ v ∈ items, P v := by
  induction h with
  | nil => simp
  | cons hrow hfirst _ ih =>
    obtain rfl := mem_singleton.mp hrow
    obtain ⟨tree, v, rfl, rfl, hv⟩ := hfirst.of_lone
    exact forall_mem_cons.mpr ⟨hP tree v hv, ih⟩

end Inversion

section Places

mutual

/-- What is picked at the places of a part, whichever of its alternatives is taken. -/
def pickPart (pick : Part → List String) : Part → List String
  | .oneOf alternatives | .opt alternatives | .many alternatives | .some1 alternatives =>
    pickIn pick alternatives
  | part => pick part

def pickRow (pick : Part → List String) : List Part → List String
  | [] => []
  | part :: rest => pickPart pick part ++ pickRow pick rest

def pickIn (pick : Part → List String) : List (List Part) → List String
  | [] => []
  | row :: rest => pickRow pick row ++ pickIn pick rest

end

def kindHere : Part → List String
  | .token kind => [kind]
  | _ => []

def nameHere : Part → List String
  | .rule name => [name]
  | _ => []

variable {name : String} {names : List String}

theorem mem_pickIn {pick : Part → List String} {alternatives : List (List Part)} {row : List Part}
    (hrow : row ∈ alternatives) (h : name ∈ pickRow pick row) :
    name ∈ pickIn pick alternatives := by
  induction alternatives with
  | nil => simp at hrow
  | cons first rest ih =>
    rw [pickIn, mem_append]
    rcases mem_cons.mp hrow with rfl | hrow
    · exact .inl h
    · exact .inr (ih hrow)

variable {spec : Spec} {R : Tree → Value → Prop} {row : List Part} {trees : List Tree}
  {items : List Value}

/-- What the lexemes and the rules of a row give holds of all its trees and values. -/
theorem Builds.each (h : Builds spec row trees items)
    (hlexemes : ∀ lexeme v, lexeme.kind ∈ pickRow kindHere row →
      valueOf (.leaf lexeme) = .ok v → R (.leaf lexeme) v)
    (hrules : ∀ name ∈ pickRow nameHere row, ∀ tree v, spec name tree v → R tree v) :
    List.Forall₂ R trees items := by
  induction h with
  | nil => exact .nil
  | token hkind hv _ ih =>
    refine .cons (hlexemes _ _ ?_ hv) (ih ?_ hrules)
    · simp [pickRow, pickPart, kindHere, hkind]
    · intro lexeme v hmem
      exact hlexemes lexeme v (mem_append_right _ hmem)
  | mark _ ih => exact ih hlexemes hrules
  | rule hv _ ih =>
    refine .cons (hrules _ ?_ _ _ hv) (ih hlexemes ?_)
    · simp [pickRow, pickPart, nameHere]
    · intro name hmem
      exact hrules name (mem_append_right _ hmem)
  | oneOf hrow _ _ ihfirst ih | opt hrow _ _ ihfirst ih =>
    simp only [pickRow, pickPart, mem_append] at hlexemes hrules
    exact rel_append
      (ihfirst (fun lexeme v hmem => hlexemes lexeme v (.inl (mem_pickIn hrow hmem)))
        fun name hmem => hrules name (.inl (mem_pickIn hrow hmem)))
      (ih (fun lexeme v hmem => hlexemes lexeme v (.inr hmem))
        fun name hmem => hrules name (.inr hmem))
  | skip _ ih | stop _ ih =>
    simp only [pickRow, pickPart, mem_append] at hlexemes hrules
    exact ih (fun lexeme v hmem => hlexemes lexeme v (.inr hmem))
      fun name hmem => hrules name (.inr hmem)
  | more hrow _ _ ihfirst ih | some1 hrow _ _ ihfirst ih =>
    simp only [pickRow, pickPart, mem_append] at hlexemes hrules ih
    exact rel_append
      (ihfirst (fun lexeme v hmem => hlexemes lexeme v (.inl (mem_pickIn hrow hmem)))
        fun name hmem => hrules name (.inl (mem_pickIn hrow hmem)))
      (ih hlexemes hrules)

theorem Builds.each_within (h : Builds spec row trees items) (hrow : rowWithin names row = true)
    (hlexemes : ∀ lexeme v, valueOf (.leaf lexeme) = .ok v → R (.leaf lexeme) v)
    (hrules : ∀ name ∈ names, ∀ tree v, spec name tree v → R tree v) :
    List.Forall₂ R trees items := by
  induction h with
  | nil => exact .nil
  | token _ hv _ ih => exact .cons (hlexemes _ _ hv) (ih hrow)
  | mark _ ih => exact ih hrow
  | rule hv _ ih =>
    simp only [rowWithin, within, Bool.and_eq_true, contains_iff_mem] at hrow
    exact .cons (hrules _ hrow.1 _ _ hv) (ih hrow.2)
  | oneOf hmem _ _ ihfirst ih | opt hmem _ _ ihfirst ih =>
    simp only [rowWithin, within, Bool.and_eq_true] at hrow
    exact rel_append (ihfirst (rowWithin_of_mem hrow.1 hmem)) (ih hrow.2)
  | skip _ ih | stop _ ih =>
    simp only [rowWithin, within, Bool.and_eq_true] at hrow
    exact ih hrow.2
  | more hmem _ _ ihfirst ih | some1 hmem _ _ ihfirst ih =>
    simp only [rowWithin, within, Bool.and_eq_true] at hrow ih
    exact rel_append (ihfirst (rowWithin_of_mem hrow.1 hmem)) (ih hrow)

/-- `Listed names found`: all that is found has one of the names. -/
inductive Listed (names : List String) : List String → Prop
  | nil : Listed names []
  | cons {name : String} {rest : List String} (h : name ∈ names) (hrest : Listed names rest) :
      Listed names (name :: rest)

theorem Listed.mem {found : List String} (h : Listed names found) (hname : name ∈ found) :
    name ∈ names := by
  induction h with
  | nil => cases hname
  | cons h _ ih =>
    rcases mem_cons.mp hname with rfl | hname
    · exact h
    · exact ih hname

theorem forall_of_forall₂ {P : Value → Prop} (h : List.Forall₂ (fun _ v => P v) trees items) :
    ∀ v ∈ items, P v := by
  induction h with
  | nil => simp
  | cons hv _ ih => exact forall_mem_cons.mpr ⟨hv, ih⟩

theorem Builds.exists_rule (h : Builds spec row trees items) (hmem : Part.rule name ∈ row) :
    ∃ v ∈ items, ∃ tree, spec name tree v := by
  induction h with
  | nil => simp at hmem
  | @rule own _ tree v _ _ hv _ ih =>
    rcases mem_cons.mp hmem with heq | hmem
    · cases heq
      exact ⟨v, mem_cons_self, tree, hv⟩
    · obtain ⟨w, hw, found⟩ := ih hmem
      exact ⟨w, mem_cons_of_mem _ hw, found⟩
  | token _ _ _ ih =>
    obtain ⟨w, hw, found⟩ := ih (by simpa using hmem)
    exact ⟨w, mem_cons_of_mem _ hw, found⟩
  | mark _ ih | skip _ ih | stop _ ih => exact ih (by simpa using hmem)
  | oneOf _ _ _ _ ih | opt _ _ _ _ ih | more _ _ _ _ ih | some1 _ _ _ _ ih =>
    obtain ⟨w, hw, found⟩ := ih (by simpa using hmem)
    exact ⟨w, mem_append_right _ hw, found⟩

end Places

end SattLine.Build
