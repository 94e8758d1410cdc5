import SattLine.Grammar.Table
import SattLine.Proofs.Grammar.Expansion

/-!
The names of the language. Main statements: the rules have different names, and so have the
terminals. Names are compared by numbers that are read off their characters.
-/

namespace SattLine.Grammar

/-- The characters of names, name by name. -/
inductive Spelled : List String → List (List Char) → Prop
  | nil : Spelled [] []
  | cons {names : List String} {spellings : List (List Char)} (chars : List Char)
      (h : Spelled names spellings) : Spelled (String.ofList chars :: names) (chars :: spellings)

theorem Spelled.eq_map {names : List String} {spellings : List (List Char)}
    (h : Spelled names spellings) : names = spellings.map String.ofList := by
  induction h with
  | nil => rfl
  | cons chars _ ih => rw [ih, List.map_cons]

/-- A spelling as a number: its characters are digits, and none of them is zero. -/
def spellingCode : List Char → Nat
  | [] => 0
  | c :: rest => c.toNat + 1 + 1114113 * spellingCode rest

/-- Whether numbers differ by their remainders; those of the numbers before them are the bits of
`seen`. -/
def differ (seen : Nat) : List Nat → Bool
  | [] => true
  | n :: rest => !seen.testBit (n % 1000003) && differ (seen ||| 1 <<< (n % 1000003)) rest

theorem nodup_of_differ {seen : Nat} {numbers : List Nat} (h : differ seen numbers = true) :
    numbers.Nodup ∧ ∀ n ∈ numbers, seen.testBit (n % 1000003) = false := by
  induction numbers generalizing seen with
  | nil => simp
  | cons n rest ih =>
    simp only [differ, Bool.and_eq_true, Bool.not_eq_true'] at h
    obtain ⟨hnodup, hseen⟩ := ih h.2
    simp only [Nat.testBit_or, Bool.or_eq_false_iff] at hseen
    refine ⟨List.nodup_cons.mpr ⟨fun hmem => ?_, hnodup⟩, ?_⟩
    · have hbit := (hseen n hmem).2
      simp [Nat.testBit_shiftLeft] at hbit
    · exact List.forall_mem_cons.mpr ⟨h.1, fun m hm => (hseen m hm).1⟩

section Spelled

variable {names : List String} {spellings : List (List Char)}

theorem Spelled.nodup (h : Spelled names spellings)
    (hcodes : differ 0 (spellings.map spellingCode) = true) : names.Nodup := by
  rw [h.eq_map]
  have hspellings : spellings.Nodup := List.Pairwise.of_map spellingCode
    (fun _ _ hne heq => hne (congrArg spellingCode heq)) (nodup_of_differ hcodes).1
  refine List.Pairwise.map String.ofList ?_ hspellings
  intro first second hne heq
  exact hne (String.ofList_inj.mp heq)

/-- What the characters of all spellings have, those of the names have. -/
theorem Spelled.forall_mem (h : Spelled names spellings) {p : List Char → Bool}
    (hp : spellings.all p = true) : ∀ name ∈ names, p name.toList = true := by
  rw [h.eq_map]
  intro name hname
  obtain ⟨chars, hchars, rfl⟩ := List.mem_map.mp hname
  rw [String.toList_ofList]
  exact List.all_eq_true.mp hp chars hchars

end Spelled

set_option maxRecDepth 10000 in
theorem nodup_ruleNames : (rules.map Rule.name).Nodup := by
  apply Spelled.nodup
  case h =>
    repeat' apply Spelled.cons
    exact Spelled.nil
  case hcodes => decide +kernel

/-- The names of all terminals, in the order in which they are listed. -/
def listedTerminals : List String :=
  (unboundedTerminals ++ boundedTerminals).map Terminal.name

set_option maxRecDepth 10000 in
theorem nodup_listedTerminals : listedTerminals.Nodup := by
  apply Spelled.nodup
  case h =>
    repeat' apply Spelled.cons
    exact Spelled.nil
  case hcodes => decide +kernel

end SattLine.Grammar
