import Mathlib.Data.List.Basic
import SattLine.Toml.Text

/-!
Texts that are written between quote marks as they are. Reading gives such a text back exactly if it
is plain: a quote mark ends it too early, a backslash and what follows it are read as one character,
and a control character is refused. Main statement: what is read behind an opening mark is the text
that was written there just if the text is plain, whatever the lines behind it hold.
-/

namespace SattLine.Toml

open List

/-- A character that stands for itself between quote marks. -/
def isPlainChar (c : Char) : Bool :=
  !(isControl c || c == '"' || c == '\\')

def Plain (text : List Char) : Prop :=
  ∀ c ∈ text, isPlainChar c = true

instance (text : List Char) : Decidable (Plain text) :=
  List.decidableBAll (fun c => isPlainChar c = true) text

section Plain

variable {c : Char} {text : List Char}

theorem plain_nil : Plain [] := by
  simp [Plain]

theorem plain_cons : Plain (c :: text) ↔ isPlainChar c = true ∧ Plain text :=
  forall_mem_cons

theorem isPlainChar_iff :
    isPlainChar c = true ↔ isControl c = false ∧ c ≠ '"' ∧ c ≠ '\\' := by
  simp [isPlainChar, and_assoc]

theorem isControl_newline : isControl '\n' = true := by
  decide

theorem Plain.no_newline (h : Plain text) : '\n' ∉ text := by
  intro hmem
  have hplain := isPlainChar_iff.mp (h _ hmem)
  rw [isControl_newline] at hplain
  cases hplain.1

end Plain

section Escapes

variable {c d : Char} {digits : List Char}

theorem hexDigit?_newline : hexDigit? '\n' = none := by
  decide

theorem escaped?_newline : escaped? '\n' = none := by
  decide

theorem no_newline_of_hexChar? (h : hexChar? digits = some c) : '\n' ∉ digits := by
  have hdigits : ∃ codes, digits.mapM hexDigit? = some codes := by
    cases hcodes : digits.mapM hexDigit? with
    | none => simp [hexChar?, hcodes] at h
    | some codes => exact ⟨codes, rfl⟩
  clear h
  induction digits with
  | nil => simp
  | cons d rest ih =>
    obtain ⟨codes, hcodes⟩ := hdigits
    rw [mapM_cons] at hcodes
    intro hmem
    rcases mem_cons.mp hmem with rfl | hmem
    · simp [hexDigit?_newline] at hcodes
    · cases hrest : rest.mapM hexDigit? with
      | none => cases hd : hexDigit? d <;> simp [hd, hrest] at hcodes
      | some others => exact ih ⟨others, hrest⟩ hmem

theorem push_eq_some {c : Option Char} {rest : Option (List Char × List Char)}
    {t left : List Char} :
    push c rest = some (t, left) ↔
      ∃ d t', c = some d ∧ rest = some (t', left) ∧ t = d :: t' := by
  cases c with
  | none => simp [push]
  | some d =>
    cases rest with
    | none => simp [push]
    | some found =>
      obtain ⟨t', left'⟩ := found
      simp [push, and_comm, eq_comm]

end Escapes

section OneLine

variable {chars text left : List Char}

theorem quoted?_cons {c : Char} (h : isPlainChar c = true) (rest : List Char) :
    quoted? (c :: rest) = push (some c) (quoted? rest) := by
  obtain ⟨hcontrol, hquote, hslash⟩ := isPlainChar_iff.mp h
  rw [quoted?] <;> simp_all

theorem quoted?_plain (h : Plain text) (rest : List Char) :
    quoted? (text ++ '"' :: rest) = some (text, rest) := by
  induction text with
  | nil => rfl
  | cons c text ih =>
    obtain ⟨hc, htext⟩ := plain_cons.mp h
    rw [cons_append, quoted?_cons hc, ih htext]
    rfl

/-- The text is read up to a closing mark on the same line; what stands there is longer than what is
read of it, or it is plain. -/
def ReadsAs (chars text left : List Char) : Prop :=
  ∃ taken, chars = taken ++ '"' :: left ∧ '\n' ∉ taken ∧
    (text.length < taken.length ∨ taken = text ∧ Plain text)

/-- An escape stands for one character. -/
theorem ReadsAs.escape {escape : List Char} (h : ReadsAs chars text left)
    (hline : '\n' ∉ escape) (hlong : 2 ≤ escape.length) (c : Char) :
    ReadsAs (escape ++ chars) (c :: text) left := by
  obtain ⟨taken, rfl, htaken, hlength⟩ := h
  refine ⟨escape ++ taken, by simp, by simp [hline, htaken], .inl ?_⟩
  have hle : text.length ≤ taken.length :=
    hlength.elim Nat.le_of_lt fun heq => heq.1 ▸ Nat.le_refl _
  simp only [length_cons, length_append]
  omega

theorem ReadsAs.plain {c : Char} (h : ReadsAs chars text left) (hc : isPlainChar c = true) :
    ReadsAs (c :: chars) (c :: text) left := by
  obtain ⟨taken, rfl, htaken, hlength⟩ := h
  have hne : '\n' ≠ c := by
    rintro rfl
    exact (plain_cons.mpr ⟨hc, plain_nil⟩).no_newline mem_cons_self
  refine ⟨c :: taken, rfl, by simp [htaken, hne], ?_⟩
  rcases hlength with hlonger | ⟨rfl, htext⟩
  · exact .inl (by simpa using hlonger)
  · exact .inr ⟨rfl, plain_cons.mpr ⟨hc, htext⟩⟩

theorem readsAs_of_quoted? (h : quoted? chars = some (text, left)) : ReadsAs chars text left := by
  induction chars using quoted?.induct generalizing text with
  | case1 => simp [quoted?] at h
  | case2 rest =>
    simp only [quoted?, Option.some.injEq, Prod.mk.injEq] at h
    obtain ⟨rfl, rfl⟩ := h
    exact ⟨[], rfl, by simp, .inr ⟨rfl, plain_nil⟩⟩
  | case3 a b c d rest ih =>
    rw [quoted?, push_eq_some] at h
    obtain ⟨x, t, hx, ht, rfl⟩ := h
    have hdigits := no_newline_of_hexChar? hx
    exact @ReadsAs.escape _ _ _ ['\\', 'u', a, b, c, d] (ih ht) (by simp_all) (by simp) x
  | case4 a b c d e f g k rest ih =>
    rw [quoted?, push_eq_some] at h
    obtain ⟨x, t, hx, ht, rfl⟩ := h
    have hdigits := no_newline_of_hexChar? hx
    exact @ReadsAs.escape _ _ _ ['\\', 'U', a, b, c, d, e, f, g, k] (ih ht) (by simp_all)
      (by simp) x
  | case5 c rest hu hU ih =>
    rw [quoted?, push_eq_some] at h
    · obtain ⟨x, t, hx, ht, rfl⟩ := h
      have hne : '\n' ≠ c := by
        rintro rfl
        rw [escaped?_newline] at hx
        cases hx
      exact @ReadsAs.escape _ _ _ ['\\', c] (ih ht) (by simp [hne]) (by simp) x
    all_goals assumption
  | case6 c rest hquote hu hU hslash hbad =>
    rw [quoted?, if_pos hbad] at h
    · cases h
    all_goals assumption
  | case7 c rest hquote hu hU hslash hgood ih =>
    rw [quoted?, if_neg hgood, push_eq_some] at h
    · obtain ⟨x, t, hx, ht, rfl⟩ := h
      cases hx
      simp only [Bool.or_eq_true, not_or, Bool.not_eq_true, beq_eq_false_iff_ne] at hgood
      exact (ih ht).plain (isPlainChar_iff.mpr ⟨hgood.1, hquote, hgood.2⟩)
    all_goals assumption

end OneLine

section Lines

variable {text left : List Char}

/-- A backslash and a blank are to be followed by nothing but blanks on their line. -/
theorem quotedLines?_onLine {line rest : List Char} (hline : '\n' ∉ line)
    (hlast : ∃ c ∈ line, isBlank c = false) : quotedLines? .onLine (line ++ rest) = none := by
  induction line with
  | nil => simp at hlast
  | cons c line ih =>
    obtain ⟨hne, hline⟩ := not_or.mp (mt mem_cons.mpr hline)
    have hnewline : (c == '\n') = false := by simpa using Ne.symm hne
    rw [cons_append, quotedLines?, if_neg (by simp [hnewline])]
    by_cases hc : isBlank c = true
    · rw [if_pos hc]
      refine ih hline ?_
      obtain ⟨d, hd, hblank⟩ := hlast
      rcases mem_cons.mp hd with rfl | hd
      · rw [hc] at hblank
        cases hblank
      · exact ⟨d, hd, hblank⟩
    · rw [if_neg hc]

theorem length_closing_le (line rest : List Char) :
    (closing '"' (line ++ '\n' :: rest)).1.length ≤ line.length := by
  match line with
  | [] =>
    cases rest <;> simp [closing]
  | [c] =>
    simp only [cons_append, nil_append, closing]
    split
    · simp_all
    · split <;> simp
  | c :: d :: line =>
    simp only [cons_append, closing]
    split
    · simp
    · split <;> simp

/-- The last character of a line is neither a backslash nor a blank. -/
def EndsFirmly (line : List Char) : Prop :=
  ∀ c, line.getLast? = some c → c ≠ '\\' ∧ isBlank c = false

theorem EndsFirmly.of_append {first line : List Char} (h : EndsFirmly (first ++ line)) :
    EndsFirmly line := by
  intro c hc
  refine h c ?_
  rw [List.getLast?_append, hc]
  rfl

/-- How a string of several lines can go on. -/
inductive Continues (left : List Char) : List Char → List Char → Prop
  | closed {rest text : List Char} (h : closing '"' rest = (text, left)) :
      Continues left ('"' :: '"' :: '"' :: rest) text
  | folded {rest text : List Char} : Continues left ('\\' :: '\n' :: rest) text
  | blank {c : Char} {rest text : List Char} (hc : isBlank c = true)
      (h : quotedLines? .onLine rest = some (text, left)) : Continues left ('\\' :: c :: rest) text
  | escape {escape rest text : List Char} {c : Char} (hline : '\n' ∉ escape)
      (h : quotedLines? .none rest = some (text, left)) :
      Continues left ('\\' :: (escape ++ rest)) (c :: text)
  | plain {c : Char} {rest text : List Char} (h : quotedLines? .none rest = some (text, left)) :
      Continues left (c :: rest) (c :: text)

theorem continues_of_quotedLines? {chars : List Char}
    (h : quotedLines? .none chars = some (text, left)) : Continues left chars text := by
  unfold quotedLines? at h
  split at h
  · cases h
  · cases ‹Fold.none = Fold.onLine›
  · rename_i c rest _
    simp only [reduceCtorEq, beq_iff_eq, Bool.and_eq_true, false_and, ↓reduceIte] at h
    split at h
    · exact .closed (Option.some.inj h)
    · exact .folded
    · exact .blank (by decide) h
    · exact .blank (by decide) h
    · rename_i a b c d rest
      obtain ⟨x, t, hx, ht, rfl⟩ := push_eq_some.mp h
      have hdigits := no_newline_of_hexChar? hx
      exact @Continues.escape _ ['u', a, b, c, d] _ _ _ (by simp_all) ht
    · rename_i a b c d e f g k rest
      obtain ⟨x, t, hx, ht, rfl⟩ := push_eq_some.mp h
      have hdigits := no_newline_of_hexChar? hx
      exact @Continues.escape _ ['U', a, b, c, d, e, f, g, k] _ _ _ (by simp_all) ht
    · rename_i c rest hnewline _ _ _ _
      obtain ⟨x, t, hx, ht, rfl⟩ := push_eq_some.mp h
      have hne : ¬ '\n' = c := fun heq => hnewline heq.symm
      exact @Continues.escape _ [c] _ _ _ (by simp [hne]) ht
    · split at h
      · cases h
      · obtain ⟨x, t, hx, ht, rfl⟩ := push_eq_some.mp h
        cases hx
        exact .plain ht

/-- What has no line end is read off the first line. -/
theorem exists_of_append_eq {taken line others rest : List Char} (htaken : '\n' ∉ taken)
    (h : taken ++ others = line ++ '\n' :: rest) :
    ∃ more, line = taken ++ more ∧ others = more ++ '\n' :: rest := by
  rcases append_eq_append_iff.mp h with ⟨more, hline, hothers⟩ | ⟨more, htakes, hmore⟩
  · exact ⟨more, hline, hothers⟩
  · cases more with
    | nil => exact ⟨[], by simpa using htakes.symm, by simpa using hmore.symm⟩
    | cons c more =>
      cases hmore
      exact absurd (htakes ▸ by simp) htaken

/-- A string of several lines that goes on behind its first line keeps the line end; one that ends
on its first line is shorter than the line. -/
theorem newline_mem_or_length_le {line rest text left : List Char} (hline : '\n' ∉ line)
    (hfirm : EndsFirmly line)
    (h : quotedLines? .none (line ++ '\n' :: rest) = some (text, left)) :
    '\n' ∈ text ∨ text.length + 3 ≤ line.length := by
  generalize hchars : line ++ '\n' :: rest = chars at h
  cases continues_of_quotedLines? h with
  | @closed others _ hclosing =>
    obtain ⟨more, rfl, rfl⟩ :=
      @exists_of_append_eq ['"', '"', '"'] line others rest (by simp) hchars.symm
    have hle := length_closing_le more rest
    rw [hclosing] at hle
    exact .inr (by simpa using hle)
  | @folded others =>
    obtain ⟨more, rfl, hmore⟩ :=
      @exists_of_append_eq ['\\'] line ('\n' :: others) rest (by simp) hchars.symm
    cases more with
    | nil => exact absurd rfl (hfirm '\\' rfl).1
    | cons c more =>
      cases hmore
      exact absurd (by simp) hline
  | @blank c others _ hc hblank =>
    have hne : '\n' ≠ c := by
      rintro rfl
      cases hc
    obtain ⟨more, rfl, rfl⟩ :=
      @exists_of_append_eq ['\\', c] line others rest (by simpa using hne) hchars.symm
    cases hlast : more.getLast? with
    | none =>
      obtain rfl := List.getLast?_eq_none_iff.mp hlast
      have hfirm := (hfirm c rfl).2
      rw [hc] at hfirm
      cases hfirm
    | some d =>
      have hd := (EndsFirmly.of_append hfirm d hlast).2
      have hmore : '\n' ∉ more := fun hmem => hline (mem_append_right _ hmem)
      rw [quotedLines?_onLine hmore ⟨d, mem_of_getLast? hlast, hd⟩] at hblank
      cases hblank
  | @escape escape others text c hescape hrest =>
    obtain ⟨more, rfl, rfl⟩ :=
      @exists_of_append_eq ('\\' :: escape) line others rest (by simpa using hescape) hchars.symm
    rcases newline_mem_or_length_le (fun hmem => hline (mem_append_right _ hmem))
      hfirm.of_append hrest with hmem | hle
    · exact .inl (mem_cons_of_mem _ hmem)
    · refine .inr ?_
      simp only [cons_append, length_cons, length_append]
      omega
  | @plain c others text hrest =>
    cases line with
    | nil =>
      cases hchars
      exact .inl mem_cons_self
    | cons d line =>
      cases hchars
      rcases newline_mem_or_length_le (fun hmem => hline (mem_cons_of_mem _ hmem))
        (@EndsFirmly.of_append [c] line hfirm) hrest with hmem | hle
      · exact .inl (mem_cons_of_mem _ hmem)
      · refine .inr ?_
        simp only [length_cons]
        omega
termination_by text.length

end Lines

section Strings

variable {s after left : List Char}

/-- What stands behind a written text: the end of its line, with a comma before it if the text is an
item of a list. The line below begins with neither a quote mark nor a backslash. -/
inductive Following : List Char → Prop
  | line {rest : List Char} (hquote : rest.head? ≠ some '"') (hslash : rest.head? ≠ some '\\') :
      Following ('\n' :: rest)
  | item {rest : List Char} : Following (',' :: '\n' :: rest)

theorem Following.split (h : Following after) :
    ∃ sep rest, after = sep ++ '\n' :: rest ∧ (sep = [] ∨ sep = [',']) := by
  cases h with
  | line _ _ => exact ⟨[], _, rfl, .inl rfl⟩
  | item => exact ⟨[','], _, rfl, .inr rfl⟩

/-- Behind a written text no mark stands on the same line. -/
theorem Following.newline_mem (h : Following after) {more rest : List Char}
    (hafter : after = more ++ '"' :: rest) : '\n' ∈ more := by
  cases h with
  | line _ _ =>
    match more with
    | [] => cases hafter
    | c :: more =>
      obtain ⟨rfl, -⟩ := List.cons.inj hafter
      exact mem_cons_self
  | item =>
    match more with
    | [] | [c] => cases hafter
    | c :: d :: more =>
      obtain ⟨rfl, -⟩ := List.cons.inj (List.cons.inj hafter).2
      exact mem_cons_of_mem _ mem_cons_self

/-- A text that seems to open a string of several lines is not read as itself. -/
theorem quotedLines?_ne_self (hs : '\n' ∉ s) (hafter : Following after) {chars : List Char}
    (hopen : s ++ '"' :: after = '"' :: '"' :: chars) :
    quotedLines? .none (skipFirstNewline chars) ≠ some (s, left) := by
  intro h
  match s with
  | [] =>
    cases hafter <;> cases hopen
  | [c] =>
    cases hopen
    -- The text is a mark alone: what is read begins on the line below, or with the comma.
    cases hafter with
    | line hquote hslash =>
      cases continues_of_quotedLines? h with
      | closed _ => exact hquote rfl
      | folded | blank _ _ | escape _ _ => exact hslash rfl
      | plain _ => exact hquote rfl
    | item => nomatch continues_of_quotedLines? h
  | c :: d :: line =>
    simp only [cons_append, List.cons.injEq] at hopen
    obtain ⟨rfl, rfl, rfl⟩ := hopen
    obtain ⟨sep, rest, rfl, hsep⟩ := hafter.split
    have hfirst : skipFirstNewline (line ++ '"' :: (sep ++ '\n' :: rest)) =
        (line ++ '"' :: sep) ++ '\n' :: rest := by
      cases line with
      | nil => rfl
      | cons e line =>
        have hne : e ≠ '\n' := fun heq => hs (by simp [heq])
        simp [skipFirstNewline, hne]
    rw [hfirst] at h
    have hline : '\n' ∉ line ++ '"' :: sep := by
      rcases hsep with rfl | rfl <;> simpa using hs
    have hfirm : EndsFirmly (line ++ '"' :: sep) := by
      intro e he
      rcases hsep with rfl | rfl <;> simp at he <;> subst he <;> decide
    rcases newline_mem_or_length_le hline hfirm h with hmem | hle
    · exact hs hmem
    · have hsep : sep.length ≤ 1 := by rcases hsep with rfl | rfl <;> simp
      simp only [List.length_append, List.length_cons] at hle
      omega

theorem asText_eq_some {result : Option (List Char × List Char)} :
    asText result = some (String.ofList s, left) ↔ result = some (s, left) := by
  cases result with
  | none => simp [asText]
  | some found =>
    obtain ⟨t, rest⟩ := found
    simp [asText, String.ofList_inj]

/-- A text between quote marks is read as itself exactly if it is plain. -/
theorem string?_eq_self_iff (hs : '\n' ∉ s) (hafter : Following after) :
    string? ('"' :: (s ++ '"' :: after)) = some (String.ofList s, left) ↔
      Plain s ∧ left = after := by
  unfold string?
  split
  · rename_i chars heq
    rw [asText_eq_some]
    have hopen : s ++ '"' :: after = '"' :: '"' :: chars := (List.cons.inj heq).2
    refine iff_of_false (quotedLines?_ne_self hs hafter hopen) ?_
    rintro ⟨hplain, -⟩
    cases s with
    | nil => cases hafter <;> cases hopen
    | cons c s =>
      obtain ⟨rfl, -⟩ := List.cons.inj hopen
      exact absurd (plain_cons.mp hplain).1 (by decide)
  · rename_i heq
    cases (List.cons.inj heq).1
  · rename_i chars _ heq
    obtain rfl := (List.cons.inj heq).2
    rw [asText_eq_some]
    constructor
    · intro h
      obtain ⟨taken, htaken, hline, hlength⟩ := readsAs_of_quoted? h
      rcases hlength with hlonger | ⟨rfl, hplain⟩
      · -- The closing mark would stand behind the one that was written, on the same line.
        exfalso
        rcases append_eq_append_iff.mp htaken with ⟨more, rfl, hmore⟩ | ⟨more, rfl, -⟩
        · cases more with
          | nil => simp at hlonger
          | cons c more =>
            have hafter := hafter.newline_mem (List.cons.inj hmore).2
            exact hline (mem_append_right _ (mem_cons_of_mem _ hafter))
        · rw [length_append] at hlonger
          omega
      · exact ⟨hplain, by simpa using htaken.symm⟩
    · rintro ⟨hplain, rfl⟩
      exact quoted?_plain hplain _
  · rename_i heq
    cases (List.cons.inj heq).1
  · rename_i hno _
    exact absurd rfl (hno _)

end Strings

end SattLine.Toml
