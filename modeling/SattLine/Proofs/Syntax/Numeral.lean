import SattLine.Number.Read
import SattLine.Proofs.Syntax.Lexeme

/-!
Numerals. Main statements: the lexemes of real numbers and of date codes can always be read as
numbers, those of integers just if they do not have too many digits.
-/

namespace SattLine.Syntax

open List
open Number

/-- Digits of a numeral, which are all that it has but for signs, a point and an exponent mark. -/
def AreDigits (chars : List Char) : Prop :=
  ∀ c ∈ chars, Text.isDigit c = true

theorem decimalZeros_apart : ∀ first ∈ Text.Table.decimalZeros.toList, 1632 ≤ first ∧
    (first + 10 ≤ 0x1680 ∨ 0x1680 < first ∧ first + 10 ≤ 0x2000 ∨ 0x3000 < first) := by
  decide

variable {c : Char} {chars digits sign : List Char} {length : Nat}

/-- The codes of digits: those of ASCII, and others far from all blanks. -/
theorem code_of_isDigit (h : Text.isDigit c = true) :
    48 ≤ c.toNat ∧ c.toNat ≤ 57 ∨ 1632 ≤ c.toNat ∧
      (c.toNat < 0x1680 ∨ 0x1680 < c.toNat ∧ c.toNat < 0x2000 ∨ 0x3000 < c.toNat) := by
  rw [Text.isDigit, Text.digitValue?] at h
  by_cases hascii : c.toNat < 128
  · rw [if_pos hascii] at h
    by_cases hdigit : c.isDigit = true
    · simp only [Char.isDigit, Bool.and_eq_true, decide_eq_true_eq] at hdigit
      exact .inl hdigit
    · simp [hdigit] at h
  · rw [if_neg hascii] at h
    cases hfound : Text.Table.decimalZeros.find?
        fun first => first ≤ c.toNat && c.toNat < first + 10 with
    | none => simp [hfound] at h
    | some first =>
      have hapart := decimalZeros_apart first
        (Array.mem_toList_iff.mpr (Array.mem_of_find?_eq_some hfound))
      have hrange := Array.find?_some hfound
      simp only [Bool.and_eq_true, decide_eq_true_eq] at hrange
      right
      omega

theorem not_isMargin_of_isDigit (h : Text.isDigit c = true) : isMargin c = false := by
  have hcode := code_of_isDigit h
  have hspace : Text.isSpace c = false := by
    simp only [Text.isSpace, Bool.or_eq_false_iff, Bool.and_eq_false_iff, decide_eq_false_iff_not,
      beq_eq_false_iff_ne, ne_eq]
    omega
  rw [isMargin, hspace, Bool.false_and]

theorem digit_ne {other : Char} (h : Text.isDigit c = true) (hother : Text.isDigit other = false) :
    c ≠ other := by
  rintro rfl
  rw [h] at hother
  cases hother

/-- The values of digits. -/
def digitValues (chars : List Char) : List Nat :=
  chars.filterMap Text.digitValue?

theorem length_digitValues (h : AreDigits chars) : (digitValues chars).length = chars.length := by
  induction chars with
  | nil => rfl
  | cons c rest ih =>
    obtain ⟨hc, hrest⟩ := forall_mem_cons.mp h
    obtain ⟨n, hn⟩ := Option.isSome_iff_exists.mp hc
    rw [digitValues, filterMap_cons_some hn, length_cons, length_cons]
    exact congrArg (· + 1) (ih hrest)

/-- What may follow digits: nothing that would go on with them. -/
def EndsDigits (rest : List Char) : Prop :=
  ∀ c ∈ rest.head?, Text.isDigit c = false ∧ c ≠ '_'

theorem digitsFrom_cons {digit? : Char → Option Nat} (hc : c ≠ '_') (rest : List Char)
    (inside : Bool) : digitsFrom digit? inside (c :: rest) =
      match digit? c with
      | some n => (n :: (digitsFrom digit? true rest).1, (digitsFrom digit? true rest).2)
      | none => ([], c :: rest) := by
  rw [digitsFrom.eq_def]
  split
  · next heq => cases heq
  · next heq =>
    cases heq
    exact absurd rfl hc
  · next heq =>
    cases heq
    rfl

theorem digitsFrom_append {rest : List Char} (h : AreDigits digits) (hrest : EndsDigits rest)
    (inside : Bool) :
    digitsFrom Text.digitValue? inside (digits ++ rest) = (digitValues digits, rest) := by
  induction digits generalizing inside with
  | nil =>
    cases rest with
    | nil => rfl
    | cons c more =>
      obtain ⟨hdigit, hunderscore⟩ := hrest c rfl
      have hnone : Text.digitValue? c = none := by
        simpa [Text.isDigit] using hdigit
      rw [nil_append, digitsFrom_cons hunderscore, hnone]
      rfl
  | cons c more ih =>
    obtain ⟨hc, hmore⟩ := forall_mem_cons.mp h
    obtain ⟨n, hn⟩ := Option.isSome_iff_exists.mp hc
    rw [cons_append, digitsFrom_cons (digit_ne hc (by decide)), hn, ih hmore true]
    simp [digitValues, hn]

/-- A sign or none. -/
def IsSign (chars : List Char) : Prop :=
  chars = [] ∨ chars = ['+'] ∨ chars = ['-']

section Signed

variable {sign digits : List Char}

theorem head_signed (hsign : IsSign sign) (hdigits : AreDigits digits) (hne : digits ≠ [])
    (rest : List Char) :
    ∃ c, (sign ++ (digits ++ rest)).head? = some c ∧ isMargin c = false := by
  obtain ⟨first, more, rfl⟩ := exists_cons_of_ne_nil hne
  rcases hsign with rfl | rfl | rfl
  · exact ⟨first, rfl, not_isMargin_of_isDigit (hdigits first mem_cons_self)⟩
  · exact ⟨'+', rfl, by decide⟩
  · exact ⟨'-', rfl, by decide⟩

theorem last_digits (hdigits : AreDigits digits) (hne : digits ≠ []) (before : List Char) :
    ∃ c, (before ++ digits).getLast? = some c ∧ isMargin c = false := by
  refine ⟨digits.getLast hne, ?_, not_isMargin_of_isDigit (hdigits _ (getLast_mem hne))⟩
  rw [List.getLast?_append_of_ne_nil _ hne, List.getLast?_eq_getLast_of_ne_nil hne]

theorem splitSign_signed (hsign : IsSign sign) (hdigits : AreDigits digits) (hne : digits ≠ [])
    (rest : List Char) :
    ∃ negative, splitSign (sign ++ (digits ++ rest)) = (negative, digits ++ rest) := by
  obtain ⟨first, more, rfl⟩ := exists_cons_of_ne_nil hne
  have hfirst := hdigits first mem_cons_self
  rcases hsign with rfl | rfl | rfl
  · refine ⟨false, ?_⟩
    rw [nil_append, cons_append, splitSign]
    · intro others heq
      exact digit_ne hfirst (by decide) (List.cons.inj heq).1
    · intro others heq
      exact digit_ne hfirst (by decide) (List.cons.inj heq).1
  · exact ⟨false, rfl⟩
  · exact ⟨true, rfl⟩

end Signed

theorem trimMargin_eq (hfirst : ∃ c, chars.head? = some c ∧ isMargin c = false)
    (hlast : ∃ c, chars.getLast? = some c ∧ isMargin c = false) : trimMargin chars = chars := by
  have hfront : chars.dropWhile isMargin = chars := by
    obtain ⟨c, hhead, hc⟩ := hfirst
    cases chars with
    | nil => rfl
    | cons first rest =>
      cases hhead
      exact dropWhile_cons_of_neg (by simp [hc])
  have hback : chars.reverse.dropWhile isMargin = chars.reverse := by
    obtain ⟨c, hend, hc⟩ := hlast
    rw [← List.head?_reverse] at hend
    cases hreverse : chars.reverse with
    | nil => rfl
    | cons final rest =>
      rw [hreverse] at hend
      cases hend
      exact dropWhile_cons_of_neg (by simp [hc])
  rw [trimMargin, hfront, hback, reverse_reverse]

/-- A sign or none and digits, which the number reader takes as they stand. -/
structure IsInteger (chars sign digits : List Char) : Prop where
  eq_append : chars = sign ++ digits
  isSign : IsSign sign
  areDigits : AreDigits digits
  ne_nil : digits ≠ []

theorem endsDigits_nil : EndsDigits [] := by
  simp [EndsDigits]

theorem IsInteger.readInt? (h : IsInteger chars sign digits) :
    (readInt? (String.ofList chars)).isSome = true ↔ digits.length ≤ digitLimit := by
  have hfirst := head_signed h.isSign h.areDigits h.ne_nil []
  obtain ⟨negative, hsplit⟩ := splitSign_signed h.isSign h.areDigits h.ne_nil []
  have hdigits := digitsFrom_append h.areDigits endsDigits_nil false
  have hlength := length_digitValues h.areDigits
  rw [append_nil] at hfirst hsplit hdigits
  simp only [Number.readInt?, String.toList_ofList, h.eq_append,
    trimMargin_eq hfirst (last_digits h.areDigits h.ne_nil sign), hsplit, readDigits, hdigits]
  cases hvalues : digitValues digits with
  | nil =>
    rw [hvalues, length_nil] at hlength
    exact absurd (length_eq_zero_iff.mp hlength.symm) h.ne_nil
  | cons value others =>
    rw [hvalues] at hlength
    simp only [hlength]
    split
    · next hlarge => simp [Nat.not_le.mpr hlarge]
    · next hsmall => simp [Nat.not_lt.mp hsmall]

theorem areDigits_takeWhile (chars : List Char) : AreDigits (chars.takeWhile Text.isDigit) :=
  all_eq_true.mp all_takeWhile

theorem take_digitCount (chars : List Char) :
    chars.take (Pattern.digitCount chars) = chars.takeWhile Text.isDigit :=
  (prefix_iff_eq_take.mp <| takeWhile_prefix _).symm

theorem isSign_take (chars : List Char) : IsSign (chars.take (Pattern.signLength chars)) := by
  cases chars with
  | nil => exact .inl rfl
  | cons c rest =>
    rw [Pattern.signLength]
    split
    · next hsign =>
      simp only [Bool.or_eq_true, beq_iff_eq] at hsign
      rcases hsign with rfl | rfl
      · exact .inr (.inl rfl)
      · exact .inr (.inr rfl)
    · exact .inl rfl

theorem isInteger_of_length (h : Pattern.integerLength chars = some length) :
    ∃ sign digits, IsInteger (chars.take length) sign digits := by
  rw [Pattern.integerLength] at h
  split at h
  · cases h
  · next hne =>
    cases h
    refine ⟨chars.take (Pattern.signLength chars),
      (chars.drop (Pattern.signLength chars)).takeWhile Text.isDigit, ?_, isSign_take chars,
      areDigits_takeWhile _, ?_⟩
    · rw [take_add, take_digitCount]
    · intro hnil
      exact hne (by simp [Pattern.digitCount, hnil])

/-- An exponent or none. -/
def IsExponent (chars : List Char) : Prop :=
  chars = [] ∨ ∃ mark number sign digits, (mark = 'e' ∨ mark = 'E') ∧ chars = mark :: number ∧
    IsInteger number sign digits

theorem isExponent_take (chars : List Char) :
    IsExponent (chars.take (Pattern.exponentLength chars)) := by
  cases chars with
  | nil => exact .inl rfl
  | cons c rest =>
    rw [Pattern.exponentLength]
    split
    · next hmark =>
      simp only [Bool.or_eq_true, beq_iff_eq] at hmark
      split
      · next length hlength =>
        obtain ⟨sign, digits, hinteger⟩ := isInteger_of_length hlength
        exact .inr ⟨c, rest.take length, sign, digits, hmark, rfl, hinteger⟩
      · exact .inl rfl
    · exact .inl rfl

section Exponent

variable {chars : List Char}

theorem IsExponent.endsDigits (h : IsExponent chars) : EndsDigits chars := by
  rcases h with rfl | ⟨mark, _, _, _, rfl | rfl, rfl, -⟩
  · exact endsDigits_nil
  · simpa [EndsDigits] using show Text.isDigit 'e' = false by decide
  · simpa [EndsDigits] using show Text.isDigit 'E' = false by decide

theorem IsExponent.readExponent? (h : IsExponent chars) :
    (readExponent? chars).isSome = true := by
  rcases h with rfl | ⟨mark, number, sign, digits, hmark, rfl, hinteger⟩
  · rfl
  · obtain ⟨negative, hsplit⟩ :=
      splitSign_signed hinteger.isSign hinteger.areDigits hinteger.ne_nil []
    have hdigits := digitsFrom_append hinteger.areDigits endsDigits_nil false
    rw [append_nil] at hsplit hdigits
    have hmark : (mark == 'e' || mark == 'E') = true := by simpa using hmark
    simp only [Number.readExponent?, hmark, ↓reduceIte, hinteger.eq_append, hsplit, readDigits,
      hdigits]
    have hlength := length_digitValues hinteger.areDigits
    cases hvalues : digitValues digits with
    | nil =>
      rw [hvalues, length_nil] at hlength
      exact absurd (length_eq_zero_iff.mp hlength.symm) hinteger.ne_nil
    | cons value others => rfl

/-- Digits before an exponent leave a digit at the end. -/
theorem IsExponent.last (h : IsExponent chars) {digits : List Char} (hdigits : AreDigits digits)
    (hne : digits ≠ []) (before : List Char) :
    ∃ c, (before ++ (digits ++ chars)).getLast? = some c ∧ isMargin c = false := by
  rcases h with rfl | ⟨mark, number, sign, power, -, rfl, hinteger⟩
  · rw [append_nil]
    exact last_digits hdigits hne before
  · have hlast := last_digits hinteger.areDigits hinteger.ne_nil (before ++ digits ++ mark :: sign)
    simpa [hinteger.eq_append] using hlast

end Exponent

/-- Digits on both sides of a point, with a sign and an exponent or without them. -/
structure IsReal (chars sign whole fraction exponent : List Char) : Prop where
  eq_append : chars = sign ++ (whole ++ '.' :: (fraction ++ exponent))
  isSign : IsSign sign
  areWhole : AreDigits whole
  whole_ne_nil : whole ≠ []
  areFraction : AreDigits fraction
  fraction_ne_nil : fraction ≠ []
  isExponent : IsExponent exponent

theorem isReal_of_length (h : Pattern.realLength chars = some length) :
    ∃ sign whole fraction exponent, IsReal (chars.take length) sign whole fraction exponent := by
  obtain ⟨count, hcount, hrest⟩ := Option.bind_eq_some_iff.mp h
  obtain ⟨sign, whole, hwhole⟩ := isInteger_of_length hcount
  split at hrest
  case h_2 => cases hrest
  case h_1 behind hbehind =>
    simp only at hrest
    split at hrest
    · cases hrest
    · next hne =>
      cases hrest
      refine ⟨sign, whole, behind.takeWhile Text.isDigit, _, ?_, hwhole.isSign, hwhole.areDigits,
        hwhole.ne_nil, areDigits_takeWhile behind, ?_,
        isExponent_take (behind.drop (Pattern.digitCount behind))⟩
      · rw [Nat.add_assoc, Nat.add_assoc, take_add, hwhole.eq_append, hbehind,
          Nat.add_comm 1, take_succ_cons, take_add, take_digitCount, append_assoc]
      · intro hnil
        exact hne (by simp [Pattern.digitCount, hnil])

theorem IsReal.readDouble? {whole fraction exponent : List Char}
    (h : IsReal chars sign whole fraction exponent) :
    (readDouble? (String.ofList chars)).isSome = true := by
  have hpoint : EndsDigits ('.' :: (fraction ++ exponent)) := by
    simpa [EndsDigits] using show Text.isDigit '.' = false by decide
  obtain ⟨negative, hsplit⟩ := splitSign_signed h.isSign h.areWhole h.whole_ne_nil
    ('.' :: (fraction ++ exponent))
  have htrim : trimMargin chars = chars := by
    refine trimMargin_eq ?_ ?_
    · rw [h.eq_append]
      exact head_signed h.isSign h.areWhole h.whole_ne_nil _
    · have hlast := h.isExponent.last h.areFraction h.fraction_ne_nil (sign ++ whole ++ ['.'])
      simpa [h.eq_append] using hlast
  have hdecimal : (readDecimal? negative (whole ++ '.' :: (fraction ++ exponent))).isSome = true := by
    obtain ⟨power, hpower⟩ := Option.isSome_iff_exists.mp h.isExponent.readExponent?
    have hlength := length_digitValues h.areWhole
    have hvalues : (digitValues whole).isEmpty = false := by
      rw [isEmpty_eq_false_iff]
      intro hnil
      rw [hnil, length_nil] at hlength
      exact h.whole_ne_nil (length_eq_zero_iff.mp hlength.symm)
    simp only [readDecimal?, readDigits, digitsFrom_append h.areWhole hpoint,
      digitsFrom_append h.areFraction h.isExponent.endsDigits, hvalues, hpower, Bool.false_and,
      Bool.false_eq_true, ↓reduceIte, Option.isSome_some]
  rw [← h.eq_append] at hsplit
  simp only [Number.readDouble?, String.toList_ofList, htrim, hsplit]
  split
  · rfl
  · rfl
  · rfl
  · exact hdecimal

theorem isInteger_of_dateCode {before : Option Char}
    (h : Pattern.dateCode.length? before chars = some length) :
    IsInteger (chars.take length) [] (chars.take length) ∧ (chars.take length).length ≤ 9 := by
  simp only [Pattern.length?] at h
  split at h
  · cases h
  · next hcount =>
    cases h
    have hle : min (Pattern.digitCount chars) 9 ≤ Pattern.digitCount chars := Nat.min_le_left _ _
    have htake : chars.take (min (Pattern.digitCount chars) 9) =
        (chars.takeWhile Text.isDigit).take (min (Pattern.digitCount chars) 9) := by
      rw [← take_digitCount, take_take, Nat.min_eq_left hle]
    refine ⟨⟨rfl, .inl rfl, ?_, ?_⟩, ?_⟩
    · rw [htake]
      intro c hc
      exact areDigits_takeWhile chars c (mem_of_mem_take hc)
    · rw [htake]
      intro hnil
      have hlength := congrArg List.length hnil
      rw [length_take, length_nil, ← Pattern.digitCount] at hlength
      omega
    · rw [length_take]
      omega

section Lexed

variable {token : Token}

theorem Token.Lexed.readDouble? (h : token.Lexed) (hkind : token.kind = "REAL") :
    (Number.readDouble? token.text).isSome = true := by
  have hlisted : ⟨"REAL", .real⟩ ∈ Grammar.unboundedTerminals := .tail _ (.head _)
  obtain ⟨before, rest, length, hlength, htext⟩ :=
    h.takes (mem_append_left _ hlisted) hkind (by simp)
  obtain ⟨sign, whole, fraction, exponent, hreal⟩ := isReal_of_length hlength
  rw [htext]
  exact hreal.readDouble?

/-- The number of digits in a text. -/
def digitsIn (text : String) : Nat :=
  text.toList.countP Text.isDigit

theorem IsInteger.digitsIn {chars sign digits : List Char} (h : IsInteger chars sign digits) :
    Syntax.digitsIn (String.ofList chars) = digits.length := by
  have hsign : sign.countP Text.isDigit = 0 := by
    rcases h.isSign with rfl | rfl | rfl <;> decide
  rw [Syntax.digitsIn, String.toList_ofList, h.eq_append, countP_append, hsign, Nat.zero_add]
  exact countP_eq_length.mpr h.areDigits

/-- The lexemes of integers can be read just if they do not have too many digits. -/
theorem Token.Lexed.readInt? (h : token.Lexed) (hkind : token.kind = "SIGNED_INT") :
    (Number.readInt? token.text).isSome = true ↔ digitsIn token.text ≤ digitLimit := by
  have hlisted : ⟨"SIGNED_INT", .integer⟩ ∈ Grammar.unboundedTerminals :=
    .tail _ (.tail _ (.tail _ (.tail _ (.head _))))
  obtain ⟨before, rest, length, hlength, htext⟩ :=
    h.takes (mem_append_left _ hlisted) hkind (by simp)
  obtain ⟨sign, digits, hinteger⟩ := isInteger_of_length hlength
  rw [htext, hinteger.readInt?, hinteger.digitsIn]

theorem Token.Lexed.readDateCode (h : token.Lexed) (hkind : token.kind = "SL_DATECODE") :
    (Number.readInt? token.text).isSome = true := by
  have hlisted : ⟨"SL_DATECODE", .dateCode⟩ ∈ Grammar.boundedTerminals := .head _
  obtain ⟨before, rest, length, hlength, htext⟩ :=
    h.takes (mem_append_right _ hlisted) hkind (by simp)
  obtain ⟨hinteger, hshort⟩ := isInteger_of_dateCode hlength
  rw [htext, hinteger.readInt?]
  exact Nat.le_trans hshort (by decide)

theorem Token.Lexed.name_ne_empty (h : token.Lexed) (hkind : token.kind = "NAME") :
    token.text ≠ "" := by
  have hlisted : ⟨"NAME", .name⟩ ∈ Grammar.unboundedTerminals := .head _
  obtain ⟨before, rest, length, hlength, htext⟩ :=
    h.takes (mem_append_left _ hlisted) hkind (by simp)
  have hlong : ∃ c more count, rest = c :: more ∧ length = count + 1 := by
    change Pattern.nameLength before rest = some length at hlength
    unfold Pattern.nameLength at hlength
    split at hlength
    · cases hlength
    · split at hlength
      · cases hlength
        exact ⟨_, _, _, rfl, rfl⟩
      · cases hlength
    · split at hlength
      · obtain ⟨count, -, rfl⟩ := Option.map_eq_some_iff.mp hlength
        exact ⟨_, _, _, rfl, rfl⟩
      · cases hlength
  obtain ⟨c, more, count, rfl, rfl⟩ := hlong
  intro hempty
  have hnil := congrArg String.toList (htext.symm.trans hempty)
  simp at hnil

end Lexed

end SattLine.Syntax
