import SattLine.Build.Lexeme
import SattLine.Syntax.Pattern

/-!
Quoted texts. A mark inside a text is written twice; the text ends with a mark, or with its line.
Main statement: both ways of writing are taken as a whole. A closed text is read back as it was
meant, and an open one with its opening mark in front.
-/

namespace SattLine.Build

open List
open Syntax (Pattern)

/-- A text with every mark written twice. -/
def doubled : List Char → List Char
  | [] => []
  | c :: rest => if c = '"' then '"' :: '"' :: doubled rest else c :: doubled rest

def closedText (text : List Char) : List Char :=
  '"' :: (doubled text ++ ['"'])

/-- A text that its line break ends. -/
def openText (text : List Char) : List Char :=
  '"' :: (doubled text ++ ['\n'])

variable {c : Char} {text rest : List Char}

theorem doubled_mark (text : List Char) : doubled ('"' :: text) = '"' :: '"' :: doubled text :=
  if_pos rfl

theorem doubled_cons (h : c ≠ '"') (text : List Char) :
    doubled (c :: text) = c :: doubled text :=
  if_neg h

theorem quotedTail_cons (hmark : c ≠ '"') (hline : c ≠ '\n') (rest : List Char) :
    Pattern.quotedTail (c :: rest) = (Pattern.quotedTail rest).map (· + 1) := by
  rw [Pattern.quotedTail]
  · exact if_neg (by simpa using hline)
  · exact fun _ heq => absurd heq hmark
  · exact hmark

theorem openQuotedTail_cons (hmark : c ≠ '"') (hline : c ≠ '\n') (rest : List Char) :
    Pattern.openQuotedTail (c :: rest) = (Pattern.openQuotedTail rest).map (· + 1) := by
  rw [Pattern.openQuotedTail]
  · exact if_neg (by simpa using hline)
  · exact fun _ heq => absurd heq hmark
  · exact hmark

theorem quotedTail_doubled (hline : '\n' ∉ text) (hrest : rest.head? ≠ some '"') :
    Pattern.quotedTail (doubled text ++ '"' :: rest) = some ((doubled text).length + 1) := by
  induction text with
  | nil =>
    cases rest with
    | nil => rfl
    | cons d more =>
      have hd : d ≠ '"' := fun heq => hrest (congrArg some heq)
      rw [doubled, nil_append, Pattern.quotedTail]
      · rfl
      · exact fun more' heq => hd (cons.inj heq).1
  | cons c text ih =>
    obtain ⟨hc, htext⟩ := not_or.mp (mt mem_cons.mpr hline)
    by_cases hmark : c = '"'
    · subst hmark
      rw [doubled_mark, cons_append, cons_append, Pattern.quotedTail, ih htext]
      rfl
    · rw [doubled_cons hmark, cons_append, quotedTail_cons hmark (Ne.symm hc), ih htext]
      rfl

theorem openQuotedTail_doubled (hline : '\n' ∉ text) (rest : List Char) :
    Pattern.openQuotedTail (doubled text ++ '\n' :: rest) = some ((doubled text).length + 1) := by
  induction text with
  | nil => rfl
  | cons c text ih =>
    obtain ⟨hc, htext⟩ := not_or.mp (mt mem_cons.mpr hline)
    by_cases hmark : c = '"'
    · subst hmark
      rw [doubled_mark, cons_append, cons_append, Pattern.openQuotedTail, ih htext]
      rfl
    · rw [doubled_cons hmark, cons_append, openQuotedTail_cons hmark (Ne.symm hc), ih htext]
      rfl

theorem length_closedText (hline : '\n' ∉ text) (hrest : rest.head? ≠ some '"')
    (before : Option Char) :
    Pattern.quoted.length? before (closedText text ++ rest) = some (closedText text).length := by
  have htail := quotedTail_doubled hline hrest
  simp [Pattern.length?, Pattern.behindQuote, closedText, htail]

theorem length_openText (hline : '\n' ∉ text) (before : Option Char) (rest : List Char) :
    Pattern.openQuoted.length? before (openText text ++ rest) = some (openText text).length := by
  have htail := openQuotedTail_doubled hline rest
  simp [Pattern.length?, Pattern.behindQuote, openText, htail]

theorem unescape_cons (h : c ≠ '"') (rest : List Char) : unescape (c :: rest) = c :: unescape rest := by
  rw [unescape]
  exact fun _ heq => absurd heq h

/-- Pairs of marks are taken from the left, so doubling is undone whatever follows. -/
theorem unescape_doubled_append (text rest : List Char) :
    unescape (doubled text ++ rest) = text ++ unescape rest := by
  induction text with
  | nil => rfl
  | cons c text ih =>
    by_cases hmark : c = '"'
    · subst hmark
      rw [doubled_mark, cons_append, cons_append, unescape, ih, cons_append]
    · rw [doubled_cons hmark, cons_append, unescape_cons hmark, ih, cons_append]

/-- A single mark in front of doubled ones stays, wherever the pairs begin. -/
theorem unescape_mark_doubled_append (hrest : rest.head? ≠ some '"') (text : List Char) :
    unescape ('"' :: (doubled text ++ rest)) = '"' :: (text ++ unescape rest) := by
  induction text with
  | nil =>
    rw [doubled, nil_append, unescape]
    · rfl
    · rintro more - rfl
      exact hrest rfl
  | cons c text ih =>
    by_cases hmark : c = '"'
    · subst hmark
      rw [doubled_mark, cons_append, cons_append, unescape, ih, cons_append]
    · rw [doubled_cons hmark, cons_append, unescape, unescape_cons hmark,
        unescape_doubled_append, cons_append]
      intro more _ heq
      exact hmark (cons.inj heq).1

theorem betweenQuotes_closedText (text : List Char) :
    betweenQuotes (closedText text) = doubled text := by
  simp [betweenQuotes, closedText]

theorem betweenQuotes_openText (text : List Char) :
    betweenQuotes (openText text) = openText text := by
  simp [betweenQuotes, openText]

theorem dropWhile_reverse_eq {p : Char → Bool} (h : ∀ c ∈ text, p c = false) :
    (text.reverse.dropWhile p).reverse = text := by
  cases hreverse : text.reverse with
  | nil => simpa using hreverse.symm
  | cons last front =>
    have hlast : last ∈ text := by
      rw [← mem_reverse, hreverse]
      exact mem_cons_self
    rw [dropWhile_cons_of_neg (by simp [h last hlast]), ← hreverse, reverse_reverse]

theorem unquoted_closedText (hline : '\n' ∉ text) :
    unquoted (String.ofList (closedText text)) = String.ofList text := by
  have hunescape := unescape_doubled_append text []
  rw [append_nil, unescape, append_nil] at hunescape
  rw [unquoted, String.toList_ofList, betweenQuotes_closedText, hunescape,
    dropWhile_reverse_eq fun c hc => by
      rw [beq_eq_false_iff_ne]
      rintro rfl
      exact hline hc]

theorem unquoted_openText (hline : '\n' ∉ text) :
    unquoted (String.ofList (openText text)) = String.ofList ('"' :: text) := by
  have hunescape : unescape (openText text) = '"' :: (text ++ ['\n']) :=
    @unescape_mark_doubled_append ['\n'] (by decide) text
  have hplain : ∀ c ∈ '"' :: text, (c == '\n') = false := by
    intro c hc
    rw [beq_eq_false_iff_ne]
    rintro rfl
    rcases mem_cons.mp hc with hmark | htext
    · exact absurd hmark (by decide)
    · exact hline htext
  have hend : ('"' :: (text ++ ['\n'])).reverse = '\n' :: ('"' :: text).reverse := by simp
  rw [unquoted, String.toList_ofList, betweenQuotes_openText, hunescape, hend,
    dropWhile_cons_of_pos (by decide), dropWhile_reverse_eq hplain]

/-- Texts on one line are taken as they are written, closed or open. A closed one is read back
exactly; an open one keeps the mark that opens it. -/
theorem quoted_texts_read (text : List Char) (hline : '\n' ∉ text) (before : Option Char)
    (rest : List Char) :
    (rest.head? ≠ some '"' →
      Pattern.quoted.length? before (closedText text ++ rest) = some (closedText text).length) ∧
    lexemeValue? "STRING" (String.ofList (closedText text)) =
      some (.ok (.text (String.ofList text))) ∧
    Pattern.openQuoted.length? before (openText text ++ rest) = some (openText text).length ∧
    lexemeValue? "STRING_CRLF" (String.ofList (openText text)) =
      some (.ok (.text (String.ofList ('"' :: text)))) := by
  refine ⟨fun hrest => length_closedText hline hrest before, ?_, length_openText hline before rest, ?_⟩
  · simp only [lexemeValue?, unquoted_closedText hline]
  · simp only [lexemeValue?, unquoted_openText hline]

theorem marked_text_read :
    '\n' ∉ ['a', '"', '"'] ∧
      lexemeValue? "STRING" "\"a\"\"\"\"\"" = some (.ok (.text "a\"\"")) ∧
      lexemeValue? "STRING_CRLF" "\"a\"\"\"\"\n" = some (.ok (.text "\"a\"\"")) := by
  have hread := quoted_texts_read ['a', '"', '"'] (by decide) none []
  exact ⟨by decide, hread.2.1, hread.2.2.2⟩

/-- An open text is not read as what it was meant to be. -/
theorem open_text_misread :
    Pattern.openQuoted.matchesAll (String.ofList (openText ['a'])) = true ∧
      lexemeValue? "STRING_CRLF" (String.ofList (openText ['a'])) ≠
        some (.ok (.text (String.ofList ['a']))) := by
  refine ⟨by decide, ?_⟩
  simp only [lexemeValue?, @unquoted_openText ['a'] (by decide), ne_eq, Option.some.injEq,
    Except.ok.injEq, Value.text.injEq, String.ofList_inj]
  decide

end SattLine.Build
