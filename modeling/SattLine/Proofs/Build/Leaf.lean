import SattLine.Proofs.Build.Row
import SattLine.Proofs.Syntax.Numeral

/-!
The values of lexemes. Main statements: a lexeme of the language has a value unless it is a whole
number with too many digits, and a keyword stays as it is.
-/

namespace SattLine.Build

open Grammar (Spelled)
open Number (digitLimit)
open Syntax (Tree Token digitsIn)

/-- The terminals whose lexemes have values of their own. -/
def valuedKinds : List String := [
  "NAME", "STRING", "STRING_CRLF", "SIGNED_INT", "REAL", "BOOL", "GLOBAL_KW", "DEFAULT",
  "ZOOMABLE", "CONST_KW", "STATE_KW", "OPSAVE_KW", "SECURE_KW", "IGNOREMAXMODULE", "LAYERMODULE",
  "COLON", "COMMA", "SEMI", "ASSIGN_INIT_VALUE", "DURATION_VALUE"]

/-- Terminals whose lexemes have to stay as they are. -/
def keywordKinds : List String := [
  "OR", "AND", "NOT", "LT", "GT", "EQ", "NE", "LE", "GE", "PLUS", "MINUS", "MULTIPLY", "DIVIDE",
  "IF", "THEN", "ELSIF", "ELSE", "ENDIF", "DOT", "NEW", "OLD", "ENABLE_PREFIX", "INVAR_PREFIX",
  "OUTVAR_PREFIX", "DATECODE_PREFIX", "SL_DATECODE", "GRID", "TWO_LAYERS", "LAYERLIMIT",
  "TEXTOBJECT", "VARNAME", "MODULEDEF", "SEQUENCE", "OPENSEQUENCE", "ENDSEQUENCE",
  "ENDOPENSEQUENCE"]

set_option maxRecDepth 4000 in
theorem nodup_kinds : (valuedKinds ++ keywordKinds).Nodup := by
  apply Spelled.nodup
  case h =>
    repeat' apply Spelled.cons
    exact Spelled.nil
  case hcodes => decide +kernel

theorem keywordText?_eq_none {kind : String} (h : kind ∉ valuedKinds) : keywordText? kind = none := by
  unfold keywordText?
  split
  case h_7 => rfl
  all_goals exact absurd (by repeat constructor) h

theorem vanishes_eq_false {kind : String} (h : kind ∉ valuedKinds) : vanishes kind = false := by
  refine Bool.eq_false_iff.mpr fun hvanishes => h ?_
  have hmem : kind ∈ valuedKinds.drop 15 := List.contains_iff_mem.mp hvanishes
  exact List.mem_of_mem_drop hmem

theorem lexemeValue?_eq_none {kind : String} (h : kind ∉ valuedKinds) (text : String) :
    lexemeValue? kind text = none := by
  unfold lexemeValue?
  split
  case h_10 => simp [keywordText?_eq_none h, vanishes_eq_false h]
  all_goals exact absurd (by repeat constructor) h

section Leaf

variable {lexeme : Token} {v : Value}

theorem token_of_leaf (hkind : lexeme.kind ∈ keywordKinds) (hv : valueOf (.leaf lexeme) = .ok v) :
    v = .token lexeme.kind lexeme.text := by
  have hother : lexeme.kind ∉ valuedKinds :=
    fun hvalued => (List.nodup_append.mp nodup_kinds).2.2 _ hvalued _ hkind rfl
  rw [valueOf, lexemeValue?_eq_none hother] at hv
  cases hv
  rfl

theorem ne_signedInt_of_keyword (hkind : lexeme.kind ∈ keywordKinds) :
    lexeme.kind ≠ "SIGNED_INT" :=
  fun h => (List.nodup_append.mp nodup_kinds).2.2 "SIGNED_INT" (by repeat constructor) _ hkind h.symm

theorem text_of_name (hkind : lexeme.kind = "NAME") (hv : valueOf (.leaf lexeme) = .ok v) :
    v = .text lexeme.text := by
  rw [valueOf, hkind] at hv
  cases hv
  rfl

theorem text_of_string (hkind : lexeme.kind = "STRING" ∨ lexeme.kind = "STRING_CRLF")
    (hv : valueOf (.leaf lexeme) = .ok v) : v = .text (unquoted lexeme.text) := by
  rcases hkind with hkind | hkind <;>
  · rw [valueOf, hkind] at hv
    cases hv
    rfl

theorem bool_of_leaf (hkind : lexeme.kind = "BOOL") (hv : valueOf (.leaf lexeme) = .ok v) :
    ∃ b, v = .bool b := by
  rw [valueOf, hkind] at hv
  cases hv
  exact ⟨_, rfl⟩

/-- A lexeme that is not a whole number has a value. -/
theorem returns_of_result (h : lexeme.Lexed) (hint : lexeme.kind ≠ "SIGNED_INT")
    {result : Result Value} (hfound : lexemeValue? lexeme.kind lexeme.text = some result) :
    ∃ v, result = .ok v := by
  unfold lexemeValue? at hfound
  split at hfound
  case h_4 hkind => exact absurd hkind hint
  case h_5 hkind =>
    obtain ⟨x, hx⟩ := Option.isSome_iff_exists.mp (h.readDouble? hkind)
    rw [hx] at hfound
    cases hfound
    exact ⟨_, rfl⟩
  case h_10 =>
    split at hfound
    · cases hfound
      exact ⟨_, rfl⟩
    · split at hfound <;> cases hfound
      exact ⟨_, rfl⟩
  all_goals
    cases hfound
    exact ⟨_, rfl⟩

/-- A lexeme has a value unless it is a whole number with too many digits. -/
theorem leaf_returns_iff (h : lexeme.Lexed) :
    (∃ v, valueOf (.leaf lexeme) = .ok v) ↔
      (lexeme.kind = "SIGNED_INT" → digitsIn lexeme.text ≤ digitLimit) := by
  by_cases hint : lexeme.kind = "SIGNED_INT"
  · simp only [← h.readInt? hint, hint, true_implies]
    rw [valueOf, hint]
    cases hread : Number.readInt? lexeme.text <;> simp [lexemeValue?, hread, blame]
  · refine iff_of_true ?_ fun hkind => absurd hkind hint
    rw [valueOf]
    cases hfound : lexemeValue? lexeme.kind lexeme.text with
    | none => exact ⟨_, rfl⟩
    | some result =>
      obtain ⟨v, rfl⟩ := returns_of_result h hint hfound
      exact ⟨v, rfl⟩

end Leaf

theorem Builds.of_keywords {spec : Spec} {rest : List Grammar.Part} {inner : List Tree}
    {items : List Value} (kinds : List String) (hkinds : Listed keywordKinds kinds)
    (h : Builds spec (.oneOf (kinds.map fun kind => [.token kind]) :: rest) inner items) :
    ∃ lexeme others following, inner = .leaf lexeme :: others ∧
      items = .token lexeme.kind lexeme.text :: following ∧ lexeme.kind ∈ keywordKinds ∧
        Builds spec rest others following := by
  obtain ⟨_, hrow, _, _, others, following, rfl, rfl, hfirst, hrest⟩ := h.of_oneOf
  obtain ⟨kind, hmem, rfl⟩ := List.mem_map.mp hrow
  obtain ⟨lexeme, v, _, _, rfl, rfl, rfl, hv, hnil⟩ := hfirst.of_token
  cases hnil
  cases token_of_leaf (hkinds.mem hmem) hv
  exact ⟨lexeme, others, following, rfl, rfl, hkinds.mem hmem, hrest⟩

end SattLine.Build
