import SattLine.Proofs.Source.Scan

/-!
What the removal of comments leaves of a text that starts with code and a comment. Main statement:
the code, the line breaks of the comment and the blanks behind it are left, and the removal goes on
behind one semicolon.
-/

namespace SattLine.Source

def Region.isComment : Region → Bool
  | .comment _ => true
  | _ => false

def Region.isQuoted : Region → Bool
  | .quoted _ => true
  | _ => false

/-- The scan never enters a comment on the text and does not end inside a quoted text. -/
structure IsCode (text : List Char) : Prop where
  noComment : ∀ move ∈ moves (.code false) text, move.behind.isComment = false
  outside : (regionAfter (.code false) text).isQuoted = false

/-- What stands behind the place where the number of open comments first returns to zero. -/
def behindComment? : Nat → List Char → Option (List Char)
  | _, [] => none
  | opened, '(' :: '*' :: text | opened + 2, '*' :: ')' :: text => behindComment? (opened + 1) text
  | _, '*' :: ')' :: text => some text
  | opened, _ :: text => behindComment? opened text

/-- A text that starts with `(*` and ends where the number of open comments first returns to
zero. -/
def IsComment (text : List Char) : Prop :=
  ∃ inside, text = '(' :: '*' :: inside ∧ behindComment? 1 inside = some []

/-- A semicolon at the head of a text is left out. -/
def withoutSemicolon : List Char → List Char
  | ';' :: text => text
  | text => text

section Removal

variable {region : Region} {text behind : List Char}

/-- A scan that starts outside comments copies all it passes over until it enters one. -/
theorem output_of_noComment (hregion : region = .code false ∨ region.isQuoted = true) {c : Char}
    {next : Option Char} (h : (moveAt c next region).behind.isComment = false) :
    (moveAt c next region).output = (moveAt c next region).passed ∧
      ((moveAt c next region).behind = .code false ∨
        (moveAt c next region).behind.isQuoted = true) := by
  rcases hregion with rfl | hquoted
  · simp only [moveAt, Bool.false_and, Bool.false_eq_true, if_false] at h ⊢
    split_ifs at h ⊢
    · cases h
    · exact ⟨rfl, .inr rfl⟩
    · exact ⟨rfl, .inl rfl⟩
  · cases region with
    | quoted quote =>
      simp only [moveAt]
      split_ifs
      all_goals exact ⟨rfl, by simp [Region.isQuoted]⟩
    | _ => cases hquoted

theorem stripFrom_of_noComment (hregion : region = .code false ∨ region.isQuoted = true)
    (h : ∀ move ∈ moves region text, move.behind.isComment = false) :
    stripFrom region text = text ∧ (regionAfter region text = .code false ∨
      (regionAfter region text).isQuoted = true) := by
  induction region, text using moves_induction with
  | nil region => exact ⟨by simp [stripFrom], hregion⟩
  | cons region c text ih =>
    rw [moves_cons, List.forall_mem_cons] at h
    obtain ⟨houtput, hbehind⟩ := output_of_noComment hregion h.1
    obtain ⟨hrest, hafter⟩ := ih hbehind h.2
    rw [stripFrom_cons, houtput, hrest, over_append_rest, regionAfter_cons]
    exact ⟨rfl, hafter⟩

theorem IsCode.stripFrom_eq (h : IsCode text) :
    stripFrom (.code false) text = text ∧ regionAfter (.code false) text = .code false := by
  obtain ⟨hstrip, hafter⟩ := stripFrom_of_noComment (.inl rfl) h.noComment
  exact ⟨hstrip, hafter.resolve_right (by simp [h.outside])⟩

/-- Of a comment its line breaks are left. -/
theorem stripFrom_comment {opened : Nat} (h : behindComment? (opened + 1) text = some []) :
    stripFrom (.comment opened) (text ++ behind) =
      text.filter isLineBreak ++ stripFrom (.code true) behind := by
  generalize hdepth : opened + 1 = depth at h
  induction depth, text using behindComment?.induct generalizing opened with
  | case1 => cases h
  | case2 depth text ih =>
    subst hdepth
    exact ih rfl h
  | case3 depth text ih =>
    obtain rfl : opened = depth + 1 := by omega
    exact ih rfl h
  | case4 depth text hshallow =>
    obtain rfl : opened = 0 := by
      cases opened with
      | zero => rfl
      | succ opened => exact absurd hdepth.symm (hshallow opened)
    rw [behindComment?] at h
    · cases h
      rfl
    · exact hshallow
  | case5 depth c text hopen hclose hlast ih =>
    rw [behindComment?] at h
    · cases text with
      | nil => cases h
      | cons d text =>
        have hno : ¬ (c = '(' ∧ d = '*') := fun hpair => hopen text hpair.1 (by rw [hpair.2])
        have hnone : ¬ (c = '*' ∧ d = ')') := fun hpair => hlast text hpair.1 (by rw [hpair.2])
        rw [List.cons_append, stripFrom_cons]
        simp only [List.cons_append, List.head?_cons, moveAt, Option.some.injEq, hno, hnone,
          if_false, Move.rest, List.length_singleton, Nat.sub_self, List.drop_zero]
        rw [← List.cons_append, ih hdepth h]
        cases hbreak : isLineBreak c with
        | false =>
          have hdropped : ¬ isLineBreak c = true := by simp [hbreak]
          rw [List.filter_cons_of_neg hdropped]
          rfl
        | true =>
          rw [List.filter_cons_of_pos hbreak]
          rfl
    all_goals assumption

/-- Behind a comment the blanks are copied and one semicolon is left out. -/
theorem stripFrom_behind (text : List Char) :
    stripFrom (.code true) text = text.takeWhile isBlank ++
      stripFrom (.code false) (withoutSemicolon (text.dropWhile isBlank)) := by
  induction text with
  | nil => rfl
  | cons c text ih =>
    by_cases hblank : isBlank c = true
    · have hne : c ≠ '(' := by
        rintro rfl
        cases hblank
      rw [List.takeWhile_cons_of_pos hblank, List.dropWhile_cons_of_pos hblank, stripFrom_cons]
      simp [moveAt, hne, hblank, Move.output, Move.rest, ih]
    · rw [List.takeWhile_cons_of_neg hblank, List.dropWhile_cons_of_neg hblank, List.nil_append]
      by_cases hmark : c = ';'
      · subst hmark
        rfl
      · have hkept : withoutSemicolon (c :: text) = c :: text := by
          simp [withoutSemicolon, hmark]
        rw [hkept, stripFrom_cons, stripFrom_cons (.code false)]
        simp [moveAt, hblank, hmark]

/-- Of code, a comment and any text behind it the code is left, the line breaks of the comment, the
blanks behind it, and what is left of the text behind these and one semicolon. Code is left as it
is. -/
theorem stripComments_eq {a : String} (ha : IsCode a.toList) :
    stripComments a = a ∧ ∀ c b : String, IsComment c.toList →
      stripComments (a ++ c ++ b) = a ++ String.ofList (c.toList.filter isLineBreak) ++
        String.ofList (b.toList.takeWhile isBlank) ++
          stripComments (String.ofList (withoutSemicolon (b.toList.dropWhile isBlank))) := by
  obtain ⟨hstrip, hafter⟩ := ha.stripFrom_eq
  refine ⟨by rw [stripComments, hstrip, String.ofList_toList], fun c b hc => ?_⟩
  obtain ⟨inside, hshape, hclosed⟩ := hc
  have happend : stripFrom (.code false) (a.toList ++ ('(' :: '*' :: inside ++ b.toList)) =
      a.toList ++ stripFrom (.comment 0) (inside ++ b.toList) := by
    have hproper : (Region.code false).Proper := trivial
    have hstar : ('(' :: '*' :: inside ++ b.toList).head? ≠ some '*' := by simp
    rw [stripFrom_append hproper hstar (.inl ⟨false, hafter⟩), hstrip, hafter]
    rfl
  have hbreaks : ('(' :: '*' :: inside).filter isLineBreak = inside.filter isLineBreak := rfl
  rw [stripComments, String.toList_append, String.toList_append, hshape, List.append_assoc, happend,
    stripFrom_comment hclosed, stripFrom_behind, hbreaks, stripComments]
  simp [String.ofList_append, String.append_assoc]

/-- A quoted delimiter opens no comment, an inner comment ends none, and only the first semicolon is
left out. -/
theorem stripComments_eq_two_lines :
    IsCode "a = \"(*\" ".toList ∧ IsComment "(*) one (* two\n*)\"*)".toList ∧
      stripComments ("a = \"(*\" " ++ "(*) one (* two\n*)\"*)" ++ " ;; b (* c *)") =
        "a = \"(*\" \n ; b " := by
  have ha : IsCode "a = \"(*\" ".toList := ⟨by decide, by decide⟩
  have hc : IsComment "(*) one (* two\n*)\"*)".toList :=
    ⟨") one (* two\n*)\"*)".toList, by decide, by decide⟩
  refine ⟨ha, hc, ?_⟩
  rw [(stripComments_eq ha).2 _ _ hc]
  decide

end Removal

end SattLine.Source
