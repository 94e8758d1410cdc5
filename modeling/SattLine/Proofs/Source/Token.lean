import SattLine.Proofs.Source.Lines

/-!
Tokens and the removal of comments. The scan and the lexical rules each say where a quoted text
ends: the scan also knows escapes, and ends it at a line break. Main statement: behind a token and
a blank comments are removed as if nothing stood in front of them exactly if the two agree on where
the token ends.
-/

namespace SattLine.Source

open List
open Syntax (Pattern)

/-- The part of a quoted token behind its opening mark, by the lexical rules: doubled marks belong to
the token. -/
inductive Tail (quote : Char) : List Char → Prop
  | close : Tail quote [quote]
  | doubled {text : List Char} : Tail quote text → Tail quote (quote :: quote :: text)
  | plain {c : Char} {text : List Char} : c ≠ quote → Tail quote text → Tail quote (c :: text)

/-- The part of a quoted token behind its opening mark, if no mark is escaped and no line break
stands outside of an escape. -/
inductive Settled (quote : Char) : List Char → Prop
  | close : Settled quote [quote]
  | doubled {text : List Char} : Settled quote text → Settled quote (quote :: quote :: text)
  | escaped {c : Char} {text : List Char} :
      c ≠ quote → Settled quote text → Settled quote ('\\' :: c :: text)
  | plain {c : Char} {text : List Char} : c ≠ quote → c ≠ '\\' → isLineBreak c = false →
      Settled quote text → Settled quote (c :: text)

section Border

variable {region : Region} {text : List Char} {after : Bool}

theorem proper_regionAfter (h : region.Proper) (text : List Char) :
    (regionAfter region text).Proper := by
  induction region, text using moves_induction with
  | nil region => exact h
  | cons region c text ih =>
    rw [regionAfter_cons]
    exact ih (proper_moveAt h _ _)

/-- Whatever follows a blank behind a text is scanned as if it stood alone exactly if the text is
copied and the scan is outside behind it. -/
theorem stripFrom_blank_iff :
    (∀ behind : List Char, behind.head? = some ' ' →
        stripFrom (.code after) (text ++ behind) = text ++ stripFrom (.code false) behind) ↔
      stripFrom (.code after) text = text ∧ regionAfter (.code after) text = .code false := by
  have happend : ∀ behind : List Char, behind.head? = some ' ' →
      stripFrom (.code after) (text ++ behind) =
        stripFrom (.code after) text ++ stripFrom (regionAfter (.code after) text) behind :=
    fun behind hblank => stripFrom_append trivial (by simp [hblank]) (.inr hblank)
  constructor
  · intro h
    -- a semicolon and a comment behind the blank are left in different ways in each region
    have hprobe := h " ;(**)".toList rfl
    rw [happend _ rfl] at hprobe
    have hlength := (stripFrom_sublist (.code after) text).length_le
    have hcode : (Region.code after).Proper := trivial
    have hproper := proper_regionAfter hcode text
    generalize regionAfter (.code after) text = behind at hprobe hproper
    cases behind with
    | code blank =>
      cases blank with
      | false => exact ⟨append_cancel_right hprobe, rfl⟩
      | true =>
        have := congrArg List.length hprobe
        simp [stripFrom, isBlank] at this
        omega
    | quoted quote =>
      have hlast := congrArg List.getLast? hprobe
      rcases hproper with rfl | rfl <;> simp [stripFrom, isLineBreak, isBlank] at hlast
    | comment outer =>
      have := congrArg List.length hprobe
      simp [stripFrom, isLineBreak, isBlank] at this
      omega
  · rintro ⟨hstrip, hafter⟩ behind hblank
    rw [happend behind hblank, hstrip, hafter]

end Border

/-- The mark of a quoted token, and what it is not. -/
structure IsMark (quote : Char) : Prop where
  mark : (quote == '"' || quote == '\'') = true
  noBreak : isLineBreak quote = false
  noBlank : isBlank quote = false
  noEscape : quote ≠ '\\'
  noOpening : quote ≠ '('
  noStar : quote ≠ '*'
  noSemicolon : quote ≠ ';'

theorem isMark {quote : Char} (h : quote = '"' ∨ quote = '\'') : IsMark quote := by
  rcases h with rfl | rfl <;> constructor <;> decide

def Region.isCode : Region → Bool
  | .code _ => true
  | _ => false

/-- A scan that has lost track of where a quoted token ends. -/
inductive Astray (quote : Char) : Region → List Char → Prop
  | inside {text : List Char} : Tail quote text → Astray quote (.quoted quote) (quote :: text)
  | outside {region : Region} {text : List Char} :
      region ≠ .quoted quote → Tail quote text → Astray quote region text
  | between {region : Region} {text : List Char} : region ≠ .quoted quote →
      region.isCode = false → Tail quote text → Astray quote region (quote :: text)
  | ended {region : Region} : region.isCode = false → Astray quote region []

section Astray

variable {quote c d : Char} {region : Region} {text : List Char}

theorem Tail.tail (hc : c ≠ quote) (h : Tail quote (c :: text)) : Tail quote text := by
  cases h with
  | close | doubled => exact absurd rfl hc
  | plain _ htext => exact htext

/-- A pair of characters that is passed over inside another region may end in a mark. -/
theorem Tail.astray_tail (hregion : region ≠ .quoted quote) (hcode : region.isCode = false)
    (h : Tail quote (c :: text)) : Astray quote region text := by
  cases h with
  | close => exact .ended hcode
  | doubled htext => exact .between hregion hcode htext
  | plain _ htext => exact .outside hregion htext

/-- A mark opens a quoted text in code and is passed over in every other region but its own. -/
theorem moveAt_mark (hmark : IsMark quote) (hregion : region ≠ .quoted quote) (next : Option Char) :
    (moveAt quote next region).passed = [quote] ∧
      (moveAt quote next region).behind = if region.isCode then .quoted quote else region := by
  cases region with
  | code after =>
    simp [moveAt, hmark.noOpening, hmark.noBlank, hmark.noSemicolon, hmark.mark, Region.isCode]
  | quoted other =>
    have hother : quote ≠ other := fun heq => hregion (by rw [heq])
    simp [moveAt, hmark.noBreak, hother, hmark.noEscape, Region.isCode]
  | comment outer =>
    simp [moveAt, hmark.noOpening, hmark.noStar, Region.isCode]

/-- Outside of the quoted text, any other character leads into no such text, too. -/
theorem Tail.astray_moveAt (hmark : IsMark quote) (hregion : region ≠ .quoted quote)
    (hc : c ≠ quote) (h : Tail quote text) :
    Astray quote (moveAt c text.head? region).behind ((moveAt c text.head? region).rest text) := by
  have hpair : ∀ d, text.head? = some d → d ≠ quote → Tail quote (text.drop 1) := by
    intro d hhead hd
    obtain ⟨inside, rfl⟩ := List.head?_eq_some_iff.mp hhead
    exact h.tail hd
  cases region with
  | code after =>
    simp only [moveAt]
    split_ifs with hopen hblank hsemicolon hquote
    · exact .outside (by simp) (hpair '*' hopen.2 hmark.noStar.symm)
    · exact .outside (by simp) h
    · exact .outside (by simp) h
    · exact .outside (by simpa using hc) h
    · exact .outside (by simp) h
  | quoted other =>
    have hother : other ≠ quote := fun heq => hregion (by rw [heq])
    simp only [moveAt]
    split_ifs with hbreak hclose hdouble hescape
    · exact .outside (by simp) h
    · exact .outside hregion (hpair other hdouble hother)
    · exact .outside (by simp) h
    · -- the escape may swallow the mark that closes the token
      cases text with
      | nil => cases h
      | cons d text => exact h.astray_tail hregion rfl
    · exact .outside hregion h
  | comment outer =>
    simp only [moveAt]
    split_ifs with hopen hclose
    · exact .outside (by simp) (hpair '*' hopen.2 hmark.noStar.symm)
    · exact .outside (by simp) (hpair ')' hclose.2 (by rintro rfl; cases hmark.mark))
    · exact .outside (by simp) (hpair ')' hclose.2 (by rintro rfl; cases hmark.mark))
    · exact .outside (by simp) h

theorem Astray.moveAt (hmark : IsMark quote) (h : Astray quote region (c :: text)) :
    Astray quote (moveAt c text.head? region).behind ((moveAt c text.head? region).rest text) := by
  cases h with
  | inside htext =>
    cases htext with
    | close => simpa [Source.moveAt, hmark.noBreak, Move.rest] using .ended rfl
    | doubled htext => simpa [Source.moveAt, hmark.noBreak, Move.rest] using .inside htext
    | plain hd htext =>
      simpa [Source.moveAt, hmark.noBreak, hd, Move.rest]
        using .outside (by simp) (.plain hd htext)
  | outside hregion htext =>
    cases htext with
    | close =>
      obtain ⟨hover, hbehind⟩ := moveAt_mark hmark hregion none
      rw [Move.rest, List.head?_nil, hover, hbehind]
      cases hcode : region.isCode with
      | true => exact .ended rfl
      | false => exact .ended hcode
    | @doubled text htext =>
      obtain ⟨hover, hbehind⟩ := moveAt_mark hmark hregion (some quote)
      rw [Move.rest, List.head?_cons, hover, hbehind]
      cases hcode : region.isCode with
      | true => exact .inside htext
      | false => exact .between hregion hcode htext
    | plain hc htext => exact htext.astray_moveAt hmark hregion hc
  | between hregion hcode htext =>
    obtain ⟨hover, hbehind⟩ := moveAt_mark hmark hregion text.head?
    simpa [Move.rest, hover, hbehind, hcode] using .outside hregion htext

/-- A lost scan is not outside at the end of the token. -/
theorem Astray.regionAfter_ne (hmark : IsMark quote) (h : Astray quote region text) (after : Bool) :
    regionAfter region text ≠ .code after := by
  induction region, text using moves_induction with
  | nil region =>
    cases h with
    | outside _ htext => cases htext
    | ended hcode =>
      rintro rfl
      cases hcode
  | cons region c text ih =>
    rw [regionAfter_cons]
    exact ih (h.moveAt hmark)

end Astray

section Settled

variable {quote : Char} {text : List Char}

theorem Settled.stripFrom_eq (hmark : IsMark quote) (h : Settled quote text) :
    stripFrom (.quoted quote) text = text ∧ regionAfter (.quoted quote) text = .code false := by
  induction h with
  | close =>
    simp [stripFrom_cons, regionAfter_cons, moveAt, hmark.noBreak, Move.output, Move.rest,
      stripFrom, regionAfter_nil]
  | doubled _ ih =>
    rw [stripFrom_cons, regionAfter_cons]
    simpa [moveAt, hmark.noBreak, Move.output, Move.rest] using ih
  | escaped _ _ ih =>
    rw [stripFrom_cons, regionAfter_cons]
    simpa [moveAt, isLineBreak, hmark.noEscape.symm, Move.output, Move.rest] using ih
  | plain hc hescape hbreak _ ih =>
    rw [stripFrom_cons, regionAfter_cons]
    simpa [moveAt, hbreak, hc, hescape, Move.output, Move.rest] using ih

theorem Tail.settled (hmark : IsMark quote) (h : Tail quote text)
    (hafter : regionAfter (.quoted quote) text = .code false) : Settled quote text := by
  generalize hregion : Region.quoted quote = region at hafter
  induction region, text using moves_induction with
  | nil region => cases h
  | cons region c text ih =>
    subst hregion
    rw [regionAfter_cons] at hafter
    cases h with
    | close => exact .close
    | @doubled text htext =>
      have hmove : moveAt quote (some quote) (.quoted quote) =
          ⟨[quote, quote], true, .quoted quote⟩ := by simp [moveAt, hmark.noBreak]
      rw [List.head?_cons, hmove] at hafter ih
      exact .doubled (ih htext rfl hafter)
    | plain hc htext =>
      by_cases hbreak : isLineBreak c = true
      · have hmove : moveAt c text.head? (.quoted quote) = ⟨[c], true, .code false⟩ := by
          simp [moveAt, hbreak]
        have hlost : Astray quote (.code false) text := .outside (by simp) htext
        rw [hmove] at hafter
        exact absurd hafter (hlost.regionAfter_ne hmark false)
      · by_cases hescape : c = '\\'
        · subst hescape
          cases text with
          | nil => cases htext
          | cons d text =>
            have hmove : moveAt '\\' (some d) (.quoted quote) =
                ⟨['\\', d], true, .quoted quote⟩ := by
              simp [moveAt, isLineBreak, hmark.noEscape.symm]
            rw [List.head?_cons, hmove] at hafter ih
            cases htext with
            | close => cases hafter
            | doubled htext =>
              have hlost := Astray.inside htext
              exact absurd hafter (hlost.regionAfter_ne hmark false)
            | plain hd htext => exact .escaped hd (ih htext rfl hafter)
        · have hmove : moveAt c text.head? (.quoted quote) = ⟨[c], true, .quoted quote⟩ := by
            simp [moveAt, hbreak, hc, hescape]
          rw [hmove] at hafter ih
          exact .plain hc hescape (by simpa using hbreak) (ih htext rfl hafter)

theorem stripFrom_quoted_iff (hmark : IsMark quote) (h : Tail quote text) (after : Bool) :
    (stripFrom (.code after) (quote :: text) = quote :: text ∧
      regionAfter (.code after) (quote :: text) = .code false) ↔ Settled quote text := by
  have hmove : moveAt quote text.head? (.code after) = ⟨[quote], true, .quoted quote⟩ := by
    simp [moveAt, hmark.noOpening, hmark.noBlank, hmark.noSemicolon, hmark.mark]
  have hstrip : stripFrom (.code after) (quote :: text) = quote :: stripFrom (.quoted quote) text := by
    rw [stripFrom_cons, hmove]
    rfl
  have hregion : regionAfter (.code after) (quote :: text) = regionAfter (.quoted quote) text := by
    rw [regionAfter_cons, hmove]
    rfl
  rw [hstrip, hregion]
  constructor
  · exact fun hafter => h.settled hmark hafter.2
  · intro hsettled
    obtain ⟨hcopied, hafter⟩ := hsettled.stripFrom_eq hmark
    exact ⟨by rw [hcopied], hafter⟩

end Settled

section Token

variable {s : String} {text : List Char}

theorem tail_of_quotedTail (h : Pattern.quotedTail text = some text.length) : Tail '"' text := by
  induction text using Syntax.Pattern.quotedTail.induct with
  | case1 rest length hrest ih =>
    rw [Pattern.quotedTail, hrest] at h
    have hlength : length = rest.length := by simpa using h
    exact .doubled (ih (by rw [hrest, hlength]))
  | case2 rest hrest ih =>
    rw [Pattern.quotedTail, hrest] at h
    simp at h
  | case3 rest hdoubled =>
    rw [Pattern.quotedTail] at h
    · have hempty : rest = [] := by simpa using h.symm
      rw [hempty]
      exact .close
    · exact hdoubled
  | case4 c rest hdoubled hclose hbreak =>
    rw [Pattern.quotedTail, if_pos hbreak] at h
    · cases h
    all_goals assumption
  | case5 c rest hdoubled hclose hbreak ih =>
    rw [Pattern.quotedTail, if_neg hbreak] at h
    · exact .plain hclose (ih (by simpa using h))
    all_goals assumption
  | case6 => cases h

theorem length?_of_matchesAll {pattern : Pattern} (h : pattern.matchesAll s = true) :
    pattern.length? none s.toList = some s.toList.length := by
  rw [String.length_toList]
  exact eq_of_beq h

theorem tail_of_quoted (h : Pattern.quoted.matchesAll s = true) :
    ∃ text, s.toList = '"' :: text ∧ Tail '"' text := by
  have hlength : Pattern.behindQuote Pattern.quotedTail s.toList = some s.toList.length :=
    length?_of_matchesAll h
  generalize s.toList = text at hlength
  simp only [Pattern.behindQuote] at hlength
  split at hlength
  · next rest => exact ⟨rest, rfl, tail_of_quotedTail (by simpa using hlength)⟩
  · cases hlength

theorem tail_of_takeWhile {quote : Char} (hmem : quote ∈ text)
    (h : (text.takeWhile (· != quote)).length + 1 = text.length) : Tail quote text := by
  induction text with
  | nil => cases hmem
  | cons c text ih =>
    by_cases hc : c = quote
    · have hempty : text = [] := by simpa [hc, eq_comm] using h
      rw [hc, hempty]
      exact .close
    · have hrest : quote ∈ text := by simpa [Ne.symm hc] using hmem
      exact .plain hc (ih hrest (by simpa [hc] using h))

theorem isNameChar_of_nameTail {limit length : ℕ} {before : Option Char}
    (h : Pattern.nameTail limit before text = some length) :
    ∀ c ∈ text.take length, Pattern.isNameChar c = true := by
  induction limit generalizing before text length with
  | zero =>
    rw [Pattern.nameTail] at h
    split at h
    · cases h
      simp
    · cases h
  | succ limit ih =>
    cases text with
    | nil => simp
    | cons c text =>
      simp only [Pattern.nameTail] at h
      split at h
      · next hc =>
        split at h
        · next length' htail =>
          obtain rfl := Option.some.inj h
          rw [take_succ_cons, forall_mem_cons]
          exact ⟨hc, ih htail⟩
        · split at h
          · cases h
            simp
          · cases h
      · split at h
        · cases h
          simp
        · cases h

/-- A name stands in single quotes, or is made of the characters of names. -/
theorem name_cases (h : Pattern.name.matchesAll s = true) :
    (∃ text, s.toList = '\'' :: text ∧ Tail '\'' text) ∨
      ∃ c text, s.toList = c :: text ∧ c ≠ '\'' ∧ ∀ d ∈ c :: text, Pattern.isNameChar d = true := by
  have hlength : Pattern.nameLength none s.toList = some s.toList.length := length?_of_matchesAll h
  generalize s.toList = text at hlength
  unfold Pattern.nameLength at hlength
  split at hlength
  · cases hlength
  · next more =>
    split_ifs at hlength with hclosed
    exact .inl ⟨more, rfl, tail_of_takeWhile (by simpa using hclosed) (by simpa using hlength)⟩
  · next c more hquote =>
    split_ifs at hlength with hc
    obtain ⟨length, htail, heq⟩ := Option.map_eq_some_iff.mp hlength
    obtain rfl : length = more.length := by simpa using heq
    refine .inr ⟨c, more, rfl, hquote, ?_⟩
    have hmore := isNameChar_of_nameTail htail
    rw [take_length] at hmore
    simp only [Bool.and_eq_true] at hc
    refine forall_mem_cons.mpr ⟨?_, hmore⟩
    simp [Pattern.isNameChar, hc.1.1]

/-- Characters of names other than the apostrophe are copied in code. -/
theorem moveAt_isNameChar {c : Char} (h : Pattern.isNameChar c = true) (hc : c ≠ '\'')
    (next : Option Char) (after : Bool) :
    moveAt c next (.code after) = ⟨[c], true, .code false⟩ := by
  have hplain : c ≠ '(' ∧ isBlank c = false ∧ c ≠ ';' ∧ c ≠ '"' := by
    refine ⟨?_, ?_, ?_, ?_⟩
    · rintro rfl
      cases h
    · cases hblank : isBlank c with
      | false => rfl
      | true =>
        simp only [isBlank, Bool.or_eq_true, beq_iff_eq] at hblank
        rcases hblank with ((rfl | rfl) | rfl) | rfl <;> cases h
    · rintro rfl
      cases h
    · rintro rfl
      cases h
  simp [moveAt, hplain, hc]

theorem stripFrom_of_isNameChar {c : Char} (h : ∀ d ∈ c :: text, Pattern.isNameChar d = true)
    (hmark : '\'' ∉ c :: text) (after : Bool) :
    stripFrom (.code after) (c :: text) = c :: text ∧
      regionAfter (.code after) (c :: text) = .code false := by
  induction text generalizing c after with
  | nil =>
    rw [forall_mem_cons] at h
    rw [stripFrom_cons, regionAfter_cons, moveAt_isNameChar h.1 (by rintro rfl; simp at hmark)]
    exact ⟨rfl, rfl⟩
  | cons d text ih =>
    rw [forall_mem_cons] at h
    rw [mem_cons, not_or] at hmark
    obtain ⟨hstrip, hafter⟩ := ih h.2 hmark.2 false
    rw [stripFrom_cons, regionAfter_cons, moveAt_isNameChar h.1 (Ne.symm hmark.1)]
    exact ⟨congrArg (c :: ·) hstrip, hafter⟩

end Token

section Removal

variable {a s : String}

/-- The removal goes on behind a text and a blank as if nothing stood in front of it exactly if the
text is copied and the scan is outside behind it. -/
theorem stripComments_blank_iff {after : Bool}
    (ha : regionAfter (.code false) a.toList = .code after) {c : Char} {text : List Char}
    (hs : s.toList = c :: text) (hstar : c ≠ '*') :
    (∀ b : String, b.toList.head? = some ' ' →
        stripComments (a ++ s ++ b) = stripComments a ++ s ++ stripComments b) ↔
      stripFrom (.code after) (c :: text) = c :: text ∧
        regionAfter (.code after) (c :: text) = .code false := by
  have hfront : ∀ b : String, (stripComments (a ++ s ++ b)).toList =
      (stripComments a).toList ++ stripFrom (.code after) (c :: text ++ b.toList) := by
    intro b
    have hproper : (Region.code false).Proper := trivial
    have hhead : (c :: text ++ b.toList).head? ≠ some '*' := by simpa using hstar
    have happend := stripFrom_append hproper hhead (.inl ⟨after, ha⟩)
    simpa [stripComments, hs, ha] using happend
  rw [← stripFrom_blank_iff]
  constructor
  · intro h behind hblank
    have hb := congrArg String.toList (h (String.ofList behind) (by simpa using hblank))
    rw [hfront] at hb
    simpa [stripComments, hs] using hb
  · intro h b hblank
    apply String.toList_injective
    rw [hfront, h b.toList hblank]
    simp [stripComments, hs]

/-- Behind a token and a blank the removal goes on as if nothing stood in front of it exactly if the
token is not quoted, or no mark of it is escaped and no line break stands in it outside of an
escape. -/
theorem stripComments_token_iff (ha : ∃ after, regionAfter (.code false) a.toList = .code after)
    (hs : Pattern.quoted.matchesAll s = true ∨ Pattern.name.matchesAll s = true ∧
      (s.toList.head? = some '\'' ∨ '\'' ∉ s.toList)) :
    (∀ b : String, b.toList.head? = some ' ' →
        stripComments (a ++ s ++ b) = stripComments a ++ s ++ stripComments b) ↔
      ∀ quote text, quote ∈ ['"', '\''] → s.toList = quote :: text → Settled quote text := by
  obtain ⟨after, ha⟩ := ha
  have htoken : (∃ quote text, quote ∈ ['"', '\''] ∧ s.toList = quote :: text ∧ Tail quote text) ∨
      ∃ c text, s.toList = c :: text ∧ '\'' ∉ c :: text ∧
        ∀ d ∈ c :: text, Pattern.isNameChar d = true := by
    rcases hs with hquoted | ⟨hname, hmark⟩
    · obtain ⟨text, htext, htail⟩ := tail_of_quoted hquoted
      exact .inl ⟨'"', text, by simp, htext, htail⟩
    · rcases name_cases hname with ⟨text, htext, htail⟩ | ⟨c, text, htext, hc, hchars⟩
      · exact .inl ⟨'\'', text, by simp, htext, htail⟩
      · rw [htext] at hmark
        exact .inr ⟨c, text, htext, hmark.resolve_left (by simpa using hc), hchars⟩
  rcases htoken with ⟨quote, text, hmem, htext, htail⟩ | ⟨c, text, htext, hmark, hchars⟩
  · have hmark : IsMark quote := isMark (by simpa using hmem)
    rw [stripComments_blank_iff ha htext hmark.noStar, stripFrom_quoted_iff hmark htail]
    constructor
    · intro hsettled other rest _ hrest
      obtain ⟨rfl, rfl⟩ := List.cons.inj (htext.symm.trans hrest)
      exact hsettled
    · exact fun h => h quote text hmem htext
  · have hstar : c ≠ '*' := by
      rintro rfl
      cases hchars '*' mem_cons_self
    rw [stripComments_blank_iff ha htext hstar]
    refine iff_of_true (stripFrom_of_isNameChar hchars hmark after) fun quote rest hmem hrest => ?_
    -- no character of such a name is a mark
    obtain ⟨rfl, rfl⟩ := List.cons.inj (htext.symm.trans hrest)
    rcases mem_pair.mp hmem with rfl | rfl
    · cases hchars '"' mem_cons_self
    · exact absurd mem_cons_self hmark

/-- Behind a doubled mark and an escaped backslash a comment is removed. -/
theorem stripComments_token_iff_doubled :
    regionAfter (.code false) "a = (**) ".toList = .code true ∧
      Pattern.quoted.matchesAll "\"b\"\"\\\\\"" = true ∧
      stripComments ("a = (**) " ++ "\"b\"\"\\\\\"" ++ " (* c *)") = "a =  \"b\"\"\\\\\" " := by
  have ha : regionAfter (.code false) "a = (**) ".toList = .code true := by decide
  have hs : Pattern.quoted.matchesAll "\"b\"\"\\\\\"" = true := by decide
  refine ⟨ha, hs, ?_⟩
  rw [(stripComments_token_iff ⟨true, ha⟩ (.inl hs)).mpr ?_ " (* c *)" (by decide)]
  · decide
  · intro quote text _ htext
    have hchars : "\"b\"\"\\\\\"".toList = ['"', 'b', '"', '"', '\\', '\\', '"'] := by decide
    obtain ⟨rfl, rfl⟩ := List.cons.inj (hchars.symm.trans htext)
    exact .plain (by decide) (by decide) (by decide) (.doubled (.escaped (by decide) .close))

/-- Behind a text that ends in a backslash no comment is removed: the scan takes the mark that closes
the text for an escaped one. -/
theorem stripComments_escaped_mark :
    regionAfter (.code false) "a = ".toList = .code false ∧
      Pattern.quoted.matchesAll "\"C:\\\"" = true ∧
      stripComments ("a = " ++ "\"C:\\\"" ++ " (* b *)") = "a = \"C:\\\" (* b *)" ∧
      stripComments "a = " ++ "\"C:\\\"" ++ stripComments " (* b *)" = "a = \"C:\\\" " := by
  decide

end Removal

end SattLine.Source
