import Mathlib.Data.List.Basic
import SattLine.Text.Line
import SattLine.Text.Split

/-!
Names that are joined to one text, with commas and blanks between them. Main statement: the text is
cut into the same names again.
-/

namespace SattLine.Text

open List

/-- A name without commas that has no blanks at its ends. -/
structure IsPlain (name : String) : Prop where
  no_comma : ',' ∉ name.toList
  trimmed : trim name = name

section Stretches

variable {separator : Char} {first chars : List Char}

theorem stretches_ne_nil (separator : Char) (chars : List Char) : stretches separator chars ≠ [] := by
  cases chars with
  | nil => simp [stretches]
  | cons c rest =>
    rw [stretches]
    split_ifs
    · simp
    · split <;> simp

theorem stretches_of_not_mem (h : separator ∉ chars) : stretches separator chars = [chars] := by
  induction chars with
  | nil => rfl
  | cons c rest ih =>
    obtain ⟨hc, hrest⟩ := not_or.mp (mem_cons.not.mp h)
    simp [stretches, ih hrest, Ne.symm hc]

theorem stretches_append_cons (h : separator ∉ first) (rest : List Char) :
    stretches separator (first ++ separator :: rest) = first :: stretches separator rest := by
  induction first with
  | nil => simp [stretches]
  | cons c more ih =>
    obtain ⟨hc, hmore⟩ := not_or.mp (mem_cons.not.mp h)
    simp [stretches, ih hmore, Ne.symm hc]

end Stretches

theorem trim_blank (chars : List Char) : trim (String.ofList (' ' :: chars)) = trim (String.ofList chars) := by
  simp [trim, trimStart, isSpace]

theorem map_trim_stretches_blank (chars : List Char) :
    (stretches ',' (' ' :: chars)).map (trim ∘ String.ofList) =
      (stretches ',' chars).map (trim ∘ String.ofList) := by
  rw [stretches, if_neg (by decide)]
  cases hcut : stretches ',' chars with
  | nil => exact absurd hcut (stretches_ne_nil ',' chars)
  | cons first others => rw [map_cons, map_cons, Function.comp_apply, trim_blank, Function.comp_apply]

theorem splitAtChar_joined {names : List String} (hne : names ≠ [])
    (h : ∀ name ∈ names, IsPlain name) :
    (splitAtChar ',' (", ".intercalate names)).map trim = names := by
  rw [splitAtChar, map_map, String.toList_intercalate, show ", ".toList = [',', ' '] from rfl]
  induction names with
  | nil => exact absurd rfl hne
  | cons name rest ih =>
    obtain ⟨hname, hrest⟩ := forall_mem_cons.mp h
    cases rest with
    | nil =>
      rw [map_singleton, intercalate_singleton, stretches_of_not_mem hname.no_comma]
      simp [hname.trimmed]
    | cons next more =>
      rw [map_cons, map_cons, intercalate_cons_cons, append_assoc, ← map_cons, cons_append,
        singleton_append, stretches_append_cons hname.no_comma, map_cons, map_trim_stretches_blank,
        ih (by simp) hrest, Function.comp_apply, String.ofList_toList, hname.trimmed]

end SattLine.Text
