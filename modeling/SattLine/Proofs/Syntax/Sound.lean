import SattLine.Proofs.Syntax.Derivation
import SattLine.Proofs.Syntax.Form

/-!
The parser is sound. Main statement: every tree that a source is parsed to is a syntax tree of a
program, read off the rules of the language alone, and its leaves are lexemes of the language.
-/

namespace SattLine.Syntax

open List
open Grammar (Part Rule Symbol Rounds Production allProductions table rules repetitionsOf
  rowSequences alternativeSequences)

variable {name : String} {rule : Rule} {trees : List Tree} {lexeme : Token} {symbol : Symbol}
  {derivations : List Derivation} {symbols : List Symbol} {tree : Tree}

theorem ruleNamed?_eq_some_iff : ruleNamed? name = some rule ↔ rule ∈ rules ∧ rule.name = name :=
  find?_key_eq_some_iff Grammar.nodup_ruleNames

theorem name_of_ruleNamed? (h : ruleNamed? name = some rule) : rule.name = name :=
  (ruleNamed?_eq_some_iff.mp h).2

/-- `Leaves symbols trees`: the symbols of a production may leave these trees. -/
inductive Leaves : List Symbol → List Tree → Prop
  | nil : Leaves [] []
  | token {name : String} {rest : List Symbol} {lexeme : Token} {trees : List Tree}
      (hkind : lexeme.kind = name) (h : Leaves rest trees) :
      Leaves (.terminal name true :: rest) (.leaf lexeme :: trees)
  | mark {name : String} {rest : List Symbol} {trees : List Tree} (h : Leaves rest trees) :
      Leaves (.terminal name false :: rest) trees
  | rule {name : String} {rest : List Symbol} {tree : Tree} {trees : List Tree}
      (htree : IsOf name tree) (h : Leaves rest trees) :
      Leaves (.rule name :: rest) (tree :: trees)
  | once {number : Nat} {rounds : Rounds} {round rest : List Symbol} {first trees : List Tree}
      (hrounds : (repetitionsOf rules)[number]? = some rounds) (hround : round ∈ rounds)
      (hfirst : Leaves round first) (h : Leaves rest trees) :
      Leaves (.repetition number :: rest) (first ++ trees)
  | again {number : Nat} {rounds : Rounds} {round rest : List Symbol}
      {before last trees : List Tree}
      (hrounds : (repetitionsOf rules)[number]? = some rounds) (hround : round ∈ rounds)
      (hbefore : Leaves [.repetition number] before) (hlast : Leaves round last)
      (h : Leaves rest trees) : Leaves (.repetition number :: rest) (before ++ last ++ trees)

theorem Leaves.of_append {first rest : List Symbol} {trees : List Tree}
    (h : Leaves (first ++ rest) trees) :
    ∃ before after, trees = before ++ after ∧ Leaves first before ∧ Leaves rest after := by
  induction first generalizing trees with
  | nil => exact ⟨[], trees, rfl, .nil, h⟩
  | cons symbol more ih =>
    cases h with
    | token hkind h =>
      obtain ⟨before, after, rfl, hbefore, hafter⟩ := ih h
      exact ⟨_, after, rfl, .token hkind hbefore, hafter⟩
    | mark h =>
      obtain ⟨before, after, rfl, hbefore, hafter⟩ := ih h
      exact ⟨before, after, rfl, .mark hbefore, hafter⟩
    | rule htree h =>
      obtain ⟨before, after, rfl, hbefore, hafter⟩ := ih h
      exact ⟨_, after, rfl, .rule htree hbefore, hafter⟩
    | once hrounds hround hfirst h =>
      obtain ⟨before, after, rfl, hbefore, hafter⟩ := ih h
      exact ⟨_, after, (append_assoc ..).symm, .once hrounds hround hfirst hbefore, hafter⟩
    | again hrounds hround hfirst hlast h =>
      obtain ⟨before, after, rfl, hbefore, hafter⟩ := ih h
      exact ⟨_, after, (append_assoc ..).symm,
        .again hrounds hround hfirst hlast hbefore, hafter⟩

/-- A repetition is one round or more. -/
theorem Leaves.of_repetition {number : Nat} {rounds : Rounds}
    (hrounds : (repetitionsOf rules)[number]? = some rounds)
    (h : Leaves [.repetition number] trees) :
    ∃ pieces, trees = pieces.flatten ∧ pieces ≠ [] ∧
      ∀ piece ∈ pieces, ∃ round ∈ rounds, Leaves round piece := by
  generalize hsymbols : [Symbol.repetition number] = symbols at h
  induction h with
  | @once _ _ round _ first _ hfound hround hfirst hrest =>
    cases hsymbols
    cases hrest
    cases hrounds.symm.trans hfound
    exact ⟨[first], by simp, by simp, by simpa using ⟨round, hround, hfirst⟩⟩
  | @again _ _ round _ before last _ hfound hround _ hlast hrest ih =>
    cases hsymbols
    cases hrest
    cases hrounds.symm.trans hfound
    obtain ⟨pieces, rfl, -, hpieces⟩ := ih rfl
    refine ⟨pieces ++ [last], by simp, by simp, ?_⟩
    exact forall_mem_append.mpr ⟨hpieces, by simpa using ⟨round, hround, hlast⟩⟩
  | _ => cases hsymbols

/-- Rounds of a repeated part in a row. -/
theorem forms_many {alternatives : List (List Part)} {pieces : List (List Tree)}
    (hpieces : ∀ piece ∈ pieces, ∃ row ∈ alternatives, Forms row piece) {rest : List Part}
    (h : Forms rest trees) : Forms (.many alternatives :: rest) (pieces.flatten ++ trees) := by
  induction pieces with
  | nil => exact .stop h
  | cons piece others ih =>
    obtain ⟨hpiece, hothers⟩ := forall_mem_cons.mp hpieces
    obtain ⟨row, hrow, hforms⟩ := hpiece
    rw [flatten_cons, append_assoc]
    exact .more hrow hforms (ih hothers)

mutual

theorem forms_part {known : List Rounds} : (part : Part) →
    (part.sequences known).2 <+: repetitionsOf rules →
    ∀ sequence ∈ (part.sequences known).1, ∀ first, Leaves sequence first →
    ∀ rest trees, Forms rest trees → Forms (part :: rest) (first ++ trees)
  | .token kind, _, sequence, hsequence, first, h, rest, trees, hrest => by
    obtain rfl := mem_singleton.mp hsequence
    cases h with
    | token hkind h =>
      cases h
      exact .token hkind hrest
  | .mark kind, _, sequence, hsequence, first, h, rest, trees, hrest => by
    obtain rfl := mem_singleton.mp hsequence
    cases h with
    | mark h =>
      cases h
      exact .mark hrest
  | .rule name, _, sequence, hsequence, first, h, rest, trees, hrest => by
    obtain rfl := mem_singleton.mp hsequence
    cases h with
    | rule htree h =>
      cases h
      exact .cons htree hrest
  | .oneOf alternatives, hall, sequence, hsequence, first, h, rest, trees, hrest => by
    obtain ⟨row, hrow, hforms⟩ := forms_alternatives alternatives hall sequence hsequence first h
    exact .oneOf hrow hforms hrest
  | .opt alternatives, hall, sequence, hsequence, first, h, rest, trees, hrest => by
    rcases mem_append.mp hsequence with hsequence | hsequence
    · obtain ⟨row, hrow, hforms⟩ :=
        forms_alternatives alternatives hall sequence hsequence first h
      exact .opt hrow hforms hrest
    · obtain rfl := mem_singleton.mp hsequence
      cases h
      exact .skip hrest
  | .many alternatives, hall, sequence, hsequence, first, h, rest, trees, hrest => by
    rcases mem_cons.mp hsequence with rfl | hsequence
    · obtain ⟨pieces, rfl, -, hpieces⟩ :=
        h.of_repetition (Grammar.getElem?_repetitionNumber hall)
      refine forms_many ?_ hrest
      intro piece hpiece
      obtain ⟨round, hround, hleaves⟩ := hpieces piece hpiece
      exact forms_alternatives alternatives ((Grammar.repetitionNumber_spec _ _).1.trans hall)
        round hround piece hleaves
    · obtain rfl := mem_singleton.mp hsequence
      cases h
      exact .stop hrest
  | .some1 alternatives, hall, sequence, hsequence, first, h, rest, trees, hrest => by
    obtain rfl := mem_singleton.mp hsequence
    obtain ⟨pieces, rfl, hne, hpieces⟩ := h.of_repetition (Grammar.getElem?_repetitionNumber hall)
    have hforms : ∀ piece ∈ pieces, ∃ row ∈ alternatives, Forms row piece := by
      intro piece hpiece
      obtain ⟨round, hround, hleaves⟩ := hpieces piece hpiece
      exact forms_alternatives alternatives ((Grammar.repetitionNumber_spec _ _).1.trans hall)
        round hround piece hleaves
    cases pieces with
    | nil => exact absurd rfl hne
    | cons piece others =>
      obtain ⟨hpiece, hothers⟩ := forall_mem_cons.mp hforms
      obtain ⟨row, hrow, hfirst⟩ := hpiece
      rw [flatten_cons, append_assoc]
      exact .some1 hrow hfirst (forms_many hothers hrest)

theorem forms_row {known : List Rounds} : (row : List Part) →
    (rowSequences known row).2 <+: repetitionsOf rules →
    ∀ sequence ∈ (rowSequences known row).1, ∀ trees, Leaves sequence trees → Forms row trees
  | [], _, sequence, hsequence, trees, h => by
    obtain rfl := mem_singleton.mp hsequence
    cases h
    exact .nil
  | part :: rest, hall, sequence, hsequence, trees, h => by
    obtain ⟨head, hhead, hcontinued⟩ := mem_flatMap.mp hsequence
    obtain ⟨tail, htail, rfl⟩ := mem_map.mp hcontinued
    obtain ⟨before, after, rfl, hbefore, hafter⟩ := h.of_append
    exact forms_part part ((Grammar.prefix_rowSequences _ rest).trans hall) head hhead before
      hbefore rest after (forms_row rest hall tail htail after hafter)

theorem forms_alternatives {known : List Rounds} : (alternatives : List (List Part)) →
    (alternativeSequences known alternatives).2 <+: repetitionsOf rules →
    ∀ sequence ∈ (alternativeSequences known alternatives).1, ∀ trees, Leaves sequence trees →
    ∃ row ∈ alternatives, Forms row trees
  | [], _, sequence, hsequence, _, _ => by simp [alternativeSequences] at hsequence
  | row :: rest, hall, sequence, hsequence, trees, h => by
    rcases mem_append.mp hsequence with hsequence | hsequence
    · refine ⟨row, mem_cons_self, ?_⟩
      exact forms_row row ((Grammar.prefix_alternativeSequences _ rest).trans hall) sequence
        hsequence trees h
    · obtain ⟨other, hother, hforms⟩ :=
        forms_alternatives rest hall sequence hsequence trees h
      exact ⟨other, mem_cons_of_mem _ hother, hforms⟩

end

/-- What a production leaves of what its symbols leave, its left side leaves. -/
theorem Leaves.production {production : Production} (hproduction : production ∈ allProductions)
    {inner : List Tree} (hinner : Leaves production.right inner) {rest : List Symbol}
    (h : Leaves rest trees) :
    Leaves (production.left :: rest) (leave production.shape inner ++ trees) := by
  rcases Grammar.mem_productions hproduction with ⟨rule, hrule, known, hall, sequence, hsequence,
    rfl⟩ | ⟨number, rounds, hrounds, round, hround, rfl | rfl⟩
  · obtain ⟨row, hrow, hforms⟩ :=
      forms_alternatives rule.alternatives hall sequence hsequence inner hinner
    have hnamed := ruleNamed?_eq_some_iff.mpr ⟨hrule, rfl⟩
    obtain ⟨tree, hleave, -⟩ := leave_eq hnamed inner
    rw [hleave]
    exact .rule (.of_row hnamed hrow hforms hleave) h
  · exact .once hrounds hround hinner h
  · obtain ⟨before, last, rfl, hbefore, hlast⟩ := @Leaves.of_append [.repetition number] _ _ hinner
    exact .again hrounds hround hbefore hlast h

theorem keptTrees_mark (table : Grammar.Table) (name : String) (symbols : List Symbol)
    (child : Derivation) (children : List Derivation) :
    keptTrees table (.terminal name false :: symbols) (child :: children) =
      keptTrees table symbols children := by
  simp [keptTrees]

theorem keptTrees_cons (table : Grammar.Table) (h : ∀ name, symbol ≠ .terminal name false)
    (symbols : List Symbol) (child : Derivation) (children : List Derivation) :
    keptTrees table (symbol :: symbols) (child :: children) =
      child.trees table ++ keptTrees table symbols children := by
  rw [keptTrees]
  exact h

theorem trees_node {table : Grammar.Table} {p : Nat} {production : Production}
    (h : table.productions[p]? = some production) (children : List Derivation) :
    (Derivation.node p children).trees table =
      leave production.shape (keptTrees table production.right children) := by
  rw [Derivation.trees, h]
  rfl

theorem getElem?_succ_append {α : Type} (first : α) (rest : List α) (n : Nat) :
    (#[first] ++ rest.toArray)[n + 1]? = rest[n]? := by
  simp

-- The fields of the table and of the language are opened by general lemmas, so that they are never
-- computed.
theorem table_productions_succ (n : Nat) : table.productions[n + 1]? = allProductions[n]? :=
  getElem?_succ_append _ _ n

theorem derives_of_derive {text : String} {derivation : Derivation} {lexicons : Array Lexicon}
    {table : Grammar.Table} (hlexicons : ∀ state, (lexicons.getD state fullLexicon).Sound)
    (h : (Language.mk table lexicons).derive text = .ok derivation) :
    Derives table [derivation] [.rule "start"] :=
  Language.Holds.run hlexicons (by simp [Language.Holds]) h

/-- The derivations of some symbols leave what the symbols may leave. -/
theorem Derives.leaves (h : Derives table derivations symbols) :
    Leaves symbols (keptTrees table symbols derivations) := by
  induction h with
  | nil => exact .nil
  | @leaf _ kept _ _ _ _ ih =>
    cases kept with
    | true => exact .token rfl ih
    | false => exact .mark ih
  | @node number production _ _ _ hfound _ _ ihchildren ih =>
    rw [table_productions_succ] at hfound
    have hproduction : production ∈ allProductions := mem_of_getElem? hfound
    rw [keptTrees_cons table fun name => Grammar.left_ne_terminal hproduction name false,
      trees_node ((table_productions_succ number).trans hfound)]
    exact Leaves.production hproduction ihchildren ih

theorem mem_lexemes_keptTrees {table : Grammar.Table} {child : Derivation}
    {children : List Derivation}
    (h : lexeme ∈ lexemesIn (keptTrees table symbols (child :: children))) :
    lexeme ∈ lexemesIn (child.trees table) ∨
      ∃ more, lexeme ∈ lexemesIn (keptTrees table more children) := by
  cases symbols with
  | nil => simp [keptTrees, lexemesIn] at h
  | cons symbol more =>
    by_cases hmark : ∃ name, symbol = .terminal name false
    · obtain ⟨name, rfl⟩ := hmark
      rw [keptTrees_mark] at h
      exact .inr ⟨more, h⟩
    · rw [keptTrees_cons table fun name heq => hmark ⟨name, heq⟩, lexemesIn_append] at h
      exact (mem_append.mp h).imp_right fun h => ⟨more, h⟩

theorem Derives.lexed {table : Grammar.Table} (h : Derives table derivations symbols)
    {kept : List Symbol} (hlexeme : lexeme ∈ lexemesIn (keptTrees table kept derivations)) :
    lexeme.Lexed := by
  induction h generalizing kept with
  | nil => simp [keptTrees, lexemesIn] at hlexeme
  | leaf hlexed _ ih =>
    rcases mem_lexemes_keptTrees hlexeme with hhere | ⟨more, hrest⟩
    · simp only [Derivation.trees, lexemesIn, lexemes, append_nil, mem_singleton] at hhere
      exact hhere ▸ hlexed
    · exact ih hrest
  | node hfound _ _ ihchildren ih =>
    rcases mem_lexemes_keptTrees hlexeme with hhere | ⟨more, hrest⟩
    · rw [trees_node hfound, lexemesIn_leave] at hhere
      exact ihchildren hhere
    · exact ih hrest

theorem isOf_of_parse {text : String} (h : parse text = .ok tree) :
    IsOf "start" tree ∧ ∀ lexeme ∈ lexemes tree, lexeme.Lexed := by
  cases hderive : language.derive text with
  | error e =>
    rw [parse, hderive] at h
    cases h
  | ok derivation =>
    have hderives : Derives table [derivation] [.rule "start"] :=
      derives_of_derive (sound_lexicons table) hderive
    have hleaves := hderives.leaves
    have hlexed : ∀ lexeme ∈ lexemesIn (keptTrees table [.rule "start"] [derivation]),
        lexeme.Lexed := fun _ => hderives.lexed
    have hkept : keptTrees table [.rule "start"] [derivation] = derivation.trees table := by
      simp [keptTrees]
    rw [hkept] at hleaves hlexed
    generalize hleft : derivation.trees table = trees at hleaves hlexed
    cases hleaves with
    | @rule _ _ only _ htree hnil =>
      cases hnil
      have hparse : parse text = .ok only := by
        have hone : derivation.trees language.table = [only] := hleft
        simp only [parse, hderive, bind, Except.bind, hone]
      cases hparse.symm.trans h
      exact ⟨htree, by simpa [lexemesIn] using hlexed⟩

/-- Every tree that a source is parsed to is one of a program, with lexemes of the language. -/
theorem isOf_of_parseSource {source : String} (h : parseSource source = .ok tree) :
    IsOf "start" tree ∧ ∀ lexeme ∈ lexemes tree, lexeme.Lexed :=
  isOf_of_parse h

end SattLine.Syntax
