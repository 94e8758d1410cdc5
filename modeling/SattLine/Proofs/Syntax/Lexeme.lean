import SattLine.Proofs.Grammar.Names
import SattLine.Proofs.Lists
import SattLine.Syntax.Parse

/-!
What the lexer reads. Main statement: in whatever state of the parser a token is read, it is one of
a terminal of the language, and its text is one that the terminal takes.
-/

namespace SattLine.Syntax

open List
open Grammar (Terminal terminals terminalNames listedTerminals)

/-- The pattern takes the text at some place. -/
def Pattern.Takes (pattern : Pattern) (text : String) : Prop :=
  ∃ before rest length, pattern.length? before rest = some length ∧
    text = String.ofList (rest.take length)

/-- The token is one of the terminal. A name that spells a keyword is that keyword. -/
def Token.Spells (token : Token) (terminal : Terminal) : Prop :=
  token.kind = terminal.name ∧
    (terminal.pattern.Takes token.text ∨ terminal.pattern = .word token.text)

/-- The lexeme is one of the terminal with its number. -/
def Lexeme.Sound (lexeme : Lexeme) : Prop :=
  ∃ terminal, (lexeme.terminal, terminal) ∈ numberedTerminals ∧ lexeme.token.Spells terminal

/-- Only terminals of the language are tried, and keywords are words of it. -/
structure Lexicon.Sound (lexicon : Lexicon) : Prop where
  tried : lexicon.tried ⊆ numberedTerminals
  keywords : ∀ text number, (text, number) ∈ lexicon.keywords →
    ∃ terminal, (number, terminal) ∈ numberedTerminals ∧ terminal.pattern = .word text

variable {number : Nat} {terminal : Terminal} {cursor after : Cursor} {lexicon : Lexicon}
  {lexeme : Lexeme}

theorem mem_numberedTerminals :
    (number, terminal) ∈ numberedTerminals ↔ terminals[number]? = some terminal := by
  simp only [numberedTerminals, mem_map, Prod.mk.injEq, Prod.exists]
  constructor
  · rintro ⟨_, _, h, rfl, rfl⟩
    exact mk_mem_zipIdx_iff_getElem?.mp h
  · intro h
    exact ⟨terminal, number, mk_mem_zipIdx_iff_getElem?.mpr h, rfl, rfl⟩

theorem getD_push_map {α β : Type} {items : List α} {f : α → β} {last default : β} {n : Nat}
    {item : α} (h : items[n]? = some item) : ((items.map f).toArray.push last).getD n default = f item := by
  have hn : n < (items.map f).toArray.size := by
    simpa using (List.getElem?_eq_some_iff.mp h).1
  rw [Array.getD_eq_getD_getElem?, Array.getElem?_push_lt hn]
  simp [(List.getElem?_eq_some_iff.mp h).2]

theorem terminalNames_of_mem (h : (number, terminal) ∈ numberedTerminals) :
    terminalNames.getD number "" = terminal.name :=
  getD_push_map (mem_numberedTerminals.mp h)

theorem keyword?_eq_some {entry : Nat × Terminal} {text : String}
    (h : keyword? entry = some (text, number)) :
    entry.1 = number ∧ entry.2.pattern = .word text := by
  obtain ⟨own, terminal⟩ := entry
  simp only [keyword?] at h
  split at h
  · next hpattern =>
    cases h
    exact ⟨rfl, hpattern⟩
  · cases h

theorem Lexicon.sound_ofTerminals {accepted : List (Nat × Terminal)}
    (h : accepted ⊆ numberedTerminals) : (Lexicon.ofTerminals accepted).Sound := by
  unfold Lexicon.ofTerminals
  split
  · constructor
    · exact List.Subset.trans (filter_subset_self _) h
    · intro text number hkeyword
      obtain ⟨entry, hentry, heq⟩ := mem_filterMap.mp hkeyword
      obtain ⟨rfl, hpattern⟩ := keyword?_eq_some heq
      exact ⟨entry.2, h (mem_of_mem_filter hentry), hpattern⟩
  · exact ⟨h, by simp⟩

theorem sound_lexicons (table : Grammar.Table) (state : Nat) :
    ((lexicons table).getD state fullLexicon).Sound := by
  rw [Array.getD_eq_getD_getElem?]
  cases hlexicon : (lexicons table)[state]? with
  | none => exact Lexicon.sound_ofTerminals (List.Subset.refl _)
  | some lexicon =>
    rw [lexicons, Array.getElem?_mapIdx] at hlexicon
    obtain ⟨_, -, rfl⟩ := Option.map_eq_some_iff.mp hlexicon
    exact Lexicon.sound_ofTerminals (filter_subset_self _)

theorem firstMatch_eq_some {entries : List (Nat × Terminal)} {length : Nat}
    (h : firstMatch cursor entries = some (number, terminal, length)) :
    (number, terminal) ∈ entries ∧
      terminal.pattern.length? cursor.previous cursor.rest = some length := by
  induction entries with
  | nil => cases h
  | cons entry rest ih =>
    rw [firstMatch] at h
    split at h
    · next hlength =>
      cases h
      exact ⟨mem_cons_self, hlength⟩
    · obtain ⟨hmem, hlength⟩ := ih h
      exact ⟨mem_cons_of_mem _ hmem, hlength⟩

theorem Lexicon.Sound.lexeme? (h : lexicon.Sound)
    (hlexeme : lexicon.lexeme? cursor = some (lexeme, after)) : lexeme.Sound := by
  rw [Lexicon.lexeme?] at hlexeme
  obtain ⟨⟨number, terminal, length⟩, hfound, heq⟩ := Option.bind_eq_some_iff.mp hlexeme
  obtain ⟨hmem, hlength⟩ := firstMatch_eq_some hfound
  have htakes : terminal.pattern.Takes (String.ofList (cursor.rest.take length)) :=
    ⟨_, _, _, hlength, rfl⟩
  simp only [Option.some.injEq, Prod.mk.injEq] at heq
  obtain ⟨rfl, -⟩ := heq
  split
  case isFalse => exact ⟨terminal, h.tried hmem, terminalNames_of_mem (h.tried hmem), .inl htakes⟩
  case isTrue =>
    cases hkeyword : lexicon.keywords.lookup (String.ofList (cursor.rest.take length)) with
    | none => exact ⟨terminal, h.tried hmem, terminalNames_of_mem (h.tried hmem), .inl htakes⟩
    | some keyword =>
      obtain ⟨word, hword, hpattern⟩ := h.keywords _ _ (mem_of_lookup hkeyword)
      exact ⟨word, hword, terminalNames_of_mem hword, .inr hpattern⟩

theorem Lexicon.Sound.read (h : lexicon.Sound) (hread : lexicon.read cursor = .ok (lexeme, after)) :
    lexeme.Sound := by
  rw [Lexicon.read] at hread
  split at hread
  · next found hfound =>
    cases hread
    exact h.lexeme? hfound
  · split at hread <;> cases hread

/-- A lexeme of the language. -/
def Token.Lexed (token : Token) : Prop :=
  ∃ terminal ∈ terminals, token.Spells terminal

theorem Lexeme.Sound.lexed (h : lexeme.Sound) : lexeme.token.Lexed := by
  obtain ⟨terminal, hterminal, hspells⟩ := h
  exact ⟨terminal, mem_of_getElem? (mem_numberedTerminals.mp hterminal), hspells⟩

theorem mem_terminals :
    terminal ∈ terminals ↔ terminal ∈ Grammar.unboundedTerminals ++ Grammar.boundedTerminals := by
  rw [terminals, mem_append, mem_append,
    (mergeSort_perm Grammar.boundedTerminals Terminal.goesBefore).mem_iff]

/-- A lexeme is told by the name of its terminal; only words can be spelled by names. -/
theorem Token.Lexed.takes {token : Token} (h : token.Lexed)
    (hterminal : terminal ∈ Grammar.unboundedTerminals ++ Grammar.boundedTerminals)
    (hkind : token.kind = terminal.name) (hword : ∀ text, terminal.pattern ≠ .word text) :
    terminal.pattern.Takes token.text := by
  obtain ⟨own, hown, hname, htakes⟩ := h
  obtain rfl : own = terminal := inj_on_of_nodup_map Grammar.nodup_listedTerminals
    (mem_terminals.mp hown) hterminal (hname.symm.trans hkind)
  exact htakes.resolve_right (hword token.text)

end SattLine.Syntax
