import Mathlib.Data.List.NodupEquivFin
import SattLine.Proofs.Source.Scan
import SattLine.Syntax.Lexer

/-!
Lines and the removal of comments. What is left of a text is a part of it in the same order, with
all its line breaks. Main statement: each character that is left stands on the line on which it
stands in the text.
-/

namespace SattLine.Source

open List
open Syntax (Cursor)

section Left

/-- A move leaves out no line break. -/
theorem filter_output_moveAt (region : Region) (c : Char) (next : Option Char) :
    (moveAt c next region).output.filter isLineBreak =
      (moveAt c next region).passed.filter isLineBreak := by
  cases region with
  | code after =>
    simp only [moveAt]
    split_ifs with hopen hblank hmark hquote
    · rfl
    · rfl
    · obtain rfl : c = ';' := by
        simp only [Bool.and_eq_true, beq_iff_eq] at hmark
        exact hmark.2
      rfl
    · rfl
    · rfl
  | quoted quote =>
    simp only [moveAt]
    split_ifs <;> rfl
  | comment outer =>
    simp only [moveAt]
    split_ifs with hopen hclose
    · rfl
    · rfl
    · rfl
    · cases hbreak : isLineBreak c <;> simp [Move.output, hbreak]

theorem output_sublist_passed (move : Move) : move.output.Sublist move.passed := by
  rw [Move.output]
  split_ifs
  · exact List.Sublist.refl _
  · exact nil_sublist _

theorem stripFrom_sublist (region : Region) (text : List Char) :
    (stripFrom region text).Sublist text := by
  induction region, text using moves_induction with
  | nil region => simp [stripFrom]
  | cons region c text ih =>
    rw [stripFrom_cons, ← over_append_rest region c text]
    exact (output_sublist_passed _).append ih

theorem filter_stripFrom (region : Region) (text : List Char) :
    (stripFrom region text).filter isLineBreak = text.filter isLineBreak := by
  induction region, text using moves_induction with
  | nil region => simp [stripFrom]
  | cons region c text ih =>
    rw [stripFrom_cons, filter_append, filter_output_moveAt, ih, ← filter_append,
      over_append_rest]

end Left

section Places

variable {part text : List Char} {place : ℕ ↪o ℕ}

/-- What stands in front of a character of the part stands in front of its place in the text. -/
theorem take_sublist_take (h : ∀ k, part[k]? = text[place k]?) (k : ℕ) :
    (part.take k).Sublist (text.take (place k)) := by
  refine sublist_of_orderEmbedding_getElem?_eq place fun i => ?_
  rw [List.getElem?_take, List.getElem?_take, h i]
  simp only [place.lt_iff_lt]

/-- What stands behind it stands behind its place. -/
theorem drop_sublist_drop (h : ∀ k, part[k]? = text[place k]?) (k : ℕ) :
    (part.drop k).Sublist (text.drop (place k)) := by
  have hle : ∀ i, place k ≤ place (k + i) := fun i => place.monotone (Nat.le_add_right k i)
  have hmono : StrictMono fun i => place (k + i) - place k := by
    intro i j hij
    have hlt : place (k + i) < place (k + j) := place.strictMono (Nat.add_lt_add_left hij k)
    have hfirst := hle i
    show place (k + i) - place k < place (k + j) - place k
    omega
  refine sublist_of_orderEmbedding_getElem?_eq (OrderEmbedding.ofStrictMono _ hmono)
    fun i => ?_
  rw [List.getElem?_drop, List.getElem?_drop, h, OrderEmbedding.coe_ofStrictMono,
    Nat.add_sub_cancel' (hle i)]

/-- A part with all of a text's `c` has the same number of them in front of each character. -/
theorem count_take_eq (h : ∀ k, part[k]? = text[place k]?) {c : Char}
    (hcount : part.count c = text.count c) (k : ℕ) :
    (part.take k).count c = (text.take (place k)).count c := by
  -- neither side of the place has fewer of them than the part, and together they have as many
  have hfront := (take_sublist_take h k).count_le c
  have hback := (drop_sublist_drop h k).count_le c
  have hpart : part.count c = (part.take k).count c + (part.drop k).count c := by
    rw [← count_append, take_append_drop]
  have htext : text.count c = (text.take (place k)).count c + (text.drop (place k)).count c := by
    rw [← count_append, take_append_drop]
  omega

end Places

/-- The line of a place is one more than the number of line feeds in front of it. -/
theorem line_advance (n : ℕ) (cursor : Cursor) :
    (cursor.advance n).line = cursor.line + (cursor.rest.take n).count '\n' := by
  induction n generalizing cursor with
  | zero => simp [Cursor.advance]
  | succ n ih =>
    rw [Cursor.advance, ih, Cursor.step]
    cases hrest : cursor.rest with
    | nil => simp [hrest]
    | cons c rest =>
      by_cases hbreak : c = '\n'
      · simp only [hbreak, beq_self_eq_true, if_true, take_succ_cons, count_cons_self]
        omega
      · simp [hbreak]

/-- Each character of the text without its comments stands at a place of the text, in the same
order and with the same number of line feeds and of carriage returns in front of it, so that it is
on the line where it was. All line breaks of the text are left. -/
theorem exists_place_stripComments (text : String) :
    ∃ place : Fin (stripComments text).toList.length → Fin text.toList.length,
      StrictMono place ∧
      (∀ k, (stripComments text).toList.get k = text.toList.get (place k)) ∧
      (∀ k : Fin (stripComments text).toList.length, ∀ c ∈ ['\n', '\r'],
        ((stripComments text).toList.take k).count c = (text.toList.take (place k)).count c) ∧
      (∀ k : Fin (stripComments text).toList.length,
        ((Cursor.start (stripComments text).toList).advance k).line =
          ((Cursor.start text.toList).advance (place k)).line) ∧
      (stripComments text).toList.filter isLineBreak = text.toList.filter isLineBreak := by
  have hleft : (stripComments text).toList = stripFrom (.code false) text.toList :=
    String.toList_ofList
  rw [hleft]
  obtain ⟨place, hplace⟩ :=
    sublist_iff_exists_orderEmbedding_getElem?_eq.mp (stripFrom_sublist (.code false) text.toList)
  have hbreaks := filter_stripFrom (.code false) text.toList
  have hcount : ∀ c ∈ ['\n', '\r'], (stripFrom (.code false) text.toList).count c =
      text.toList.count c := by
    intro c hc
    have hbreak : isLineBreak c = true := by
      simp only [mem_cons, not_mem_nil, or_false] at hc
      rcases hc with rfl | rfl <;> rfl
    rw [← count_filter hbreak, hbreaks, count_filter hbreak]
  have hlt : ∀ k : Fin (stripFrom (.code false) text.toList).length,
      place k < text.toList.length := by
    intro k
    have hsome := hplace k
    rw [List.getElem?_eq_getElem k.isLt] at hsome
    exact (List.getElem?_eq_some_iff.mp hsome.symm).1
  refine ⟨fun k => ⟨place k, hlt k⟩, fun i j hij => place.strictMono hij, fun k => ?_,
    fun k c hc => count_take_eq hplace (hcount c hc) k, fun k => ?_, hbreaks⟩
  · have hsome := hplace k
    rw [List.getElem?_eq_getElem k.isLt, List.getElem?_eq_getElem (hlt k)] at hsome
    exact Option.some.inj hsome
  · rw [line_advance, line_advance]
    exact congrArg _ (count_take_eq hplace (hcount '\n' (by decide)) k)

end SattLine.Source
