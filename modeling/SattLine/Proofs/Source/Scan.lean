import Mathlib.Data.List.Basic
import SattLine.Source.Comment

/-!
The scan that removes comments, move by move. A move depends on the region of its first character
and on the character behind it. Main statement: a scan over two texts is the scan over the first one
and then, from the region behind it, over the second one, if no delimiter lies across their border.
-/

namespace SattLine.Source

open List

/-- One move of the scan: the characters that it passes over, whether it copies them, and the region
behind them. -/
structure Move where
  passed : List Char
  copied : Bool
  behind : Region
  deriving DecidableEq, Repr

def Move.output (move : Move) : List Char :=
  if move.copied then move.passed else []

/-- The move at a character, which depends on the one that follows it. -/
def moveAt (c : Char) (next : Option Char) : Region → Move
  | .code after =>
    if c = '(' ∧ next = some '*' then ⟨['(', '*'], false, .comment 0⟩
    else if after && isBlank c then ⟨[c], true, .code true⟩
    else if after && c == ';' then ⟨[c], false, .code false⟩
    else if c == '"' || c == '\'' then ⟨[c], true, .quoted c⟩
    else ⟨[c], true, .code false⟩
  | .quoted quote =>
    if isLineBreak c then ⟨[c], true, .code false⟩
    else if c = quote then
      if next = some quote then ⟨[c, quote], true, .quoted quote⟩
      else ⟨[c], true, .code false⟩
    else if c = '\\' then ⟨c :: next.toList, true, .quoted quote⟩
    else ⟨[c], true, .quoted quote⟩
  | .comment outer =>
    if c = '(' ∧ next = some '*' then ⟨['(', '*'], false, .comment (outer + 1)⟩
    else if c = '*' ∧ next = some ')' then
      ⟨['*', ')'], false, if outer = 0 then .code true else .comment (outer - 1)⟩
    else ⟨[c], isLineBreak c, .comment outer⟩

/-- What is left behind a move, `text` being what follows its first character. -/
def Move.rest (move : Move) (text : List Char) : List Char :=
  text.drop (move.passed.length - 1)

/-- The moves of the scan over a text whose first character lies in the given region. -/
def moves : Region → List Char → List Move
  | _, [] => []
  | region, [c] => [moveAt c none region]
  | region, c :: d :: text =>
    let move := moveAt c (some d) region
    move :: if move.passed.length = 2 then moves move.behind text else moves move.behind (d :: text)

/-- The region behind a text. -/
def regionAfter (region : Region) (text : List Char) : Region :=
  ((moves region text).map Move.behind).getLast?.getD region

section Moves

variable {region : Region} {c d e : Char} {text : List Char}

theorem over_moveAt (region : Region) (c : Char) (next : Option Char) :
    (moveAt c next region).passed = [c] ∨
      ∃ d, next = some d ∧ (moveAt c next region).passed = [c, d] := by
  cases region with
  | code after =>
    simp only [moveAt]
    split_ifs with hopen
    · exact .inr ⟨'*', hopen.2, by rw [hopen.1]⟩
    all_goals exact .inl rfl
  | quoted quote =>
    simp only [moveAt]
    split_ifs with hbreak hclose hdouble
    · exact .inl rfl
    · exact .inr ⟨quote, hdouble, rfl⟩
    · exact .inl rfl
    · cases next with
      | none => exact .inl rfl
      | some d => exact .inr ⟨d, rfl, rfl⟩
    · exact .inl rfl
  | comment outer =>
    simp only [moveAt]
    split_ifs with hopen hclose
    · exact .inr ⟨'*', hopen.2, by rw [hopen.1]⟩
    · exact .inr ⟨')', hclose.2, by rw [hclose.1]⟩
    · exact .inr ⟨')', hclose.2, by rw [hclose.1]⟩
    · exact .inl rfl

theorem length_rest_le (move : Move) (text : List Char) :
    (move.rest text).length ≤ text.length := by
  rw [Move.rest, length_drop]
  exact Nat.sub_le _ _

/-- Induction along the moves of the scan. -/
theorem moves_induction {P : Region → List Char → Prop} (nil : ∀ region, P region [])
    (cons : ∀ region c text, P (moveAt c text.head? region).behind
      ((moveAt c text.head? region).rest text) → P region (c :: text)) (region : Region)
    (text : List Char) : P region text := by
  induction hlength : text.length using Nat.strongRecOn generalizing region text with
  | ind length ih =>
    cases text with
    | nil => exact nil region
    | cons c text =>
      refine cons region c text (ih _ ?_ _ _ rfl)
      have hle := length_rest_le (moveAt c text.head? region) text
      rw [length_cons] at hlength
      omega

theorem moves_cons (region : Region) (c : Char) (text : List Char) :
    moves region (c :: text) = moveAt c text.head? region ::
      moves (moveAt c text.head? region).behind ((moveAt c text.head? region).rest text) := by
  cases text with
  | nil => simp [moves, Move.rest]
  | cons d text =>
    rcases over_moveAt region c (some d) with h | ⟨_, _, h⟩ <;> simp [moves, Move.rest, h]

theorem regionAfter_nil (region : Region) : regionAfter region [] = region :=
  rfl

theorem regionAfter_cons (region : Region) (c : Char) (text : List Char) :
    regionAfter region (c :: text) = regionAfter (moveAt c text.head? region).behind
      ((moveAt c text.head? region).rest text) := by
  rw [regionAfter, moves_cons, map_cons, List.getLast?_cons]
  rfl

theorem not_head (h : ¬ (c = d ∧ text.head? = some e)) (inside : List Char) (hc : c = d)
    (htext : text = e :: inside) : False :=
  h ⟨hc, by rw [htext, List.head?_cons]⟩

/-- The scan copies what its first move copies, and goes on behind it. -/
theorem stripFrom_cons (region : Region) (c : Char) (text : List Char) :
    stripFrom region (c :: text) = (moveAt c text.head? region).output ++
      stripFrom (moveAt c text.head? region).behind
        ((moveAt c text.head? region).rest text) := by
  cases region with
  | code after =>
    by_cases hopen : c = '(' ∧ text.head? = some '*'
    · obtain ⟨rfl, hhead⟩ := hopen
      obtain ⟨inside, rfl⟩ := List.head?_eq_some_iff.mp hhead
      rfl
    · rw [stripFrom]
      · simp only [moveAt, hopen, if_false]
        split_ifs <;> rfl
      · exact not_head hopen
  | quoted quote =>
    cases text with
    | nil =>
      simp only [moveAt, List.head?_nil]
      split_ifs <;> simp_all [Move.output, Move.rest, stripFrom]
    | cons d text =>
      rw [stripFrom]
      simp only [moveAt, List.head?_cons, Option.some.injEq, beq_iff_eq]
      split_ifs <;> simp_all [Move.output, Move.rest]
  | comment outer =>
    by_cases hopen : c = '(' ∧ text.head? = some '*'
    · obtain ⟨rfl, hhead⟩ := hopen
      obtain ⟨inside, rfl⟩ := List.head?_eq_some_iff.mp hhead
      rfl
    · by_cases hclose : c = '*' ∧ text.head? = some ')'
      · obtain ⟨rfl, hhead⟩ := hclose
        obtain ⟨inside, rfl⟩ := List.head?_eq_some_iff.mp hhead
        cases outer <;> rfl
      · rw [stripFrom]
        · simp only [moveAt, hopen, hclose, if_false]
          cases isLineBreak c <;> rfl
        · exact not_head hopen
        · exact fun inside _ => not_head hclose inside
        · exact fun _ inside _ => not_head hclose inside

theorem over_append_rest (region : Region) (c : Char) (text : List Char) :
    (moveAt c text.head? region).passed ++ (moveAt c text.head? region).rest text = c :: text := by
  rcases over_moveAt region c text.head? with h | ⟨d, hhead, h⟩
  · simp [Move.rest, h]
  · obtain ⟨inside, rfl⟩ := List.head?_eq_some_iff.mp hhead
    rw [Move.rest, h]
    rfl

/-- What is left behind a move that does not reach the end of the text in front. -/
theorem rest_append (region : Region) (c : Char) (next : Option Char) {first : List Char}
    (hfirst : first ≠ []) (behind : List Char) :
    (moveAt c next region).rest (first ++ behind) =
      (moveAt c next region).rest first ++ behind := by
  have hlength : (moveAt c next region).passed.length - 1 ≤ first.length := by
    have hpos := length_pos_iff.mpr hfirst
    rcases over_moveAt region c next with h | ⟨_, _, h⟩ <;> simp only [h, length_cons,
      length_nil] <;> omega
  exact drop_append_of_le_length hlength

end Moves

/-- A region that a scan can reach: only quote marks enclose a quoted text. -/
def Region.Proper : Region → Prop
  | .quoted quote => quote = '"' ∨ quote = '\''
  | _ => True

theorem proper_moveAt {region : Region} (h : region.Proper) (c : Char) (next : Option Char) :
    (moveAt c next region).behind.Proper := by
  cases region with
  | code after =>
    simp only [moveAt]
    split_ifs with hopen hblank hmark hquote
    · exact trivial
    · exact trivial
    · exact trivial
    · simpa [Region.Proper] using hquote
    · exact trivial
  | quoted quote =>
    simp only [moveAt]
    split_ifs
    all_goals first | exact h | exact trivial
  | comment outer =>
    simp only [moveAt]
    split_ifs <;> exact trivial

section Append

variable {region : Region} {first behind : List Char}

theorem moveAt_none_passed (region : Region) (c : Char) : (moveAt c none region).passed = [c] := by
  rcases over_moveAt region c none with h | ⟨_, hnone, _⟩
  · exact h
  · cases hnone

/-- A move that does not look across the border. -/
theorem stripFrom_cons_of_eq {c : Char} (h : moveAt c behind.head? region = moveAt c none region) :
    stripFrom region (c :: behind) =
      stripFrom region [c] ++ stripFrom (regionAfter region [c]) behind := by
  rw [stripFrom_cons, stripFrom_cons region c [], regionAfter_cons, h]
  simp [Move.rest, moveAt_none_passed, stripFrom, regionAfter_nil]

/-- A delimiter lies across the border of two texts only if the second one starts with a star, or if
the first one ends inside a comment or a quoted text. A blank completes none. -/
theorem stripFrom_border {c : Char} (hproper : region.Proper) (hstar : behind.head? ≠ some '*')
    (hborder : (∃ after, regionAfter region [c] = .code after) ∨ behind.head? = some ' ') :
    stripFrom region (c :: behind) =
      stripFrom region [c] ++ stripFrom (regionAfter region [c]) behind := by
  rw [regionAfter_cons] at hborder
  cases region with
  | code after =>
    refine stripFrom_cons_of_eq ?_
    simp [moveAt, hstar]
  | comment outer =>
    have hblank : behind.head? = some ' ' := by
      refine hborder.resolve_left ?_
      simp [moveAt, Move.rest, regionAfter_nil]
    refine stripFrom_cons_of_eq ?_
    simp [moveAt, hblank]
  | quoted quote =>
    have hbreak : isLineBreak quote = false ∧ quote ≠ '\\' ∧ quote ≠ ' ' ∧ quote ≠ '(' := by
      rcases hproper with rfl | rfl <;> decide
    by_cases hdouble : c = quote ∧ behind.head? = some quote
    · obtain ⟨rfl, hhead⟩ := hdouble
      obtain ⟨behind, rfl⟩ := List.head?_eq_some_iff.mp hhead
      have hopens : stripFrom (.code false) (c :: behind) = c :: stripFrom (.quoted c) behind := by
        rcases hproper with rfl | rfl <;> simp [stripFrom_cons (.code false), moveAt, Move.output,
          Move.rest]
      simp [stripFrom_cons (.quoted c), regionAfter_cons, regionAfter_nil, moveAt, hbreak.1,
        Move.output, Move.rest, stripFrom, hopens]
    · by_cases hescape : c = '\\'
      · subst hescape
        have hblank : behind.head? = some ' ' := by
          refine hborder.resolve_left ?_
          simp [moveAt, isLineBreak, hbreak.2.1.symm, Move.rest, regionAfter_nil]
        obtain ⟨behind, rfl⟩ := List.head?_eq_some_iff.mp hblank
        simp [stripFrom_cons (.quoted quote), regionAfter_cons, regionAfter_nil, moveAt,
          isLineBreak, hbreak.2.1.symm, hbreak.2.2.1.symm, Move.output, Move.rest, stripFrom]
      · refine stripFrom_cons_of_eq ?_
        simp only [moveAt]
        split_ifs <;> simp_all

/-- The scan over two texts is the scan over the first one and then over the second one. -/
theorem stripFrom_append (hproper : region.Proper) (hstar : behind.head? ≠ some '*')
    (hborder : (∃ after, regionAfter region first = .code after) ∨ behind.head? = some ' ') :
    stripFrom region (first ++ behind) =
      stripFrom region first ++ stripFrom (regionAfter region first) behind := by
  induction region, first using moves_induction with
  | nil region => simp [stripFrom, regionAfter_nil]
  | cons region c first ih =>
    cases first with
    | nil => exact stripFrom_border hproper hstar hborder
    | cons d first =>
      -- the character behind the move lies in the first text, too
      have hhead : ((d :: first) ++ behind).head? = (d :: first).head? := rfl
      have hmoves := rest_append region c (d :: first).head? (cons_ne_nil d first) behind
      rw [regionAfter_cons] at hborder ⊢
      rw [cons_append, stripFrom_cons, hhead, hmoves,
        ih (proper_moveAt hproper _ _) hborder, stripFrom_cons region c (d :: first),
        append_assoc]

end Append

end SattLine.Source
