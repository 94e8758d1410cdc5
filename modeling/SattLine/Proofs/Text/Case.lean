import Mathlib.Data.List.Basic
import SattLine.Text.Case
import SattLine.Text.Split

/-!
Small letters stay as they are. The table of capital letters is checked once, run against run: no
small letter stands among the capitals. Main statements: putting a text into small letters a second
time changes nothing, and no dot comes or goes.
-/

namespace SattLine.Text

namespace Table.CaseRun

/-- The capital letters of a run by their code points. -/
def Holds (run : CaseRun) (code : Nat) : Prop :=
  run.first ≤ code ∧ code ≤ run.last ∧ (code - run.first) % run.stride = 0

/-- The code point of the first small letter of a run. -/
def firstSmall (run : CaseRun) : Nat :=
  (run.first + run.shift).toNat

/-- The code point of its last one. -/
def lastSmall (run : CaseRun) : Nat :=
  (run.last + run.shift).toNat

/-- None of the small letters of one run stands in the other: they lie before it or behind it, or
all of them between its letters. -/
def apart (run other : CaseRun) : Bool :=
  Nat.blt run.lastSmall other.first || Nat.blt other.last run.firstSmall ||
    (other.stride == 2 && (run.stride == 2 || run.first == run.last) &&
      (run.firstSmall + other.first) % 2 == 1)

/-- The small letters of a run lie behind the capital letters of ASCII and before the surrogates or
behind them, and the capital sigma and the dotted capital I are not among them. -/
def wellPlaced (run : CaseRun) : Bool :=
  0 ≤ run.first + run.shift && 97 ≤ run.firstSmall && run.lastSmall < 0x110000 &&
    (run.lastSmall < 0xD800 || 0xDFFF < run.firstSmall) &&
    (run.lastSmall < 0x130 || 0x130 < run.firstSmall) &&
    (run.lastSmall < 0x3A3 || 0x3A3 < run.firstSmall) &&
    (127 < run.firstSmall || run.firstSmall == 107 && run.lastSmall == 107)

end Table.CaseRun

open Table (CaseRun caseRuns)

theorem caseRuns_apart : (caseRuns.toList.all fun run => caseRuns.toList.all run.apart) = true := by
  decide +kernel

theorem caseRuns_wellPlaced : caseRuns.toList.all CaseRun.wellPlaced = true := by
  decide +kernel

/-- A character that is no capital letter. -/
structure IsSmall (c : Char) : Prop where
  not_sigma : c ≠ capitalSigma
  not_dotted : c.toNat ≠ 0x130
  lowerChar_eq : lowerChar c = c

theorem lowerChar_ascii : ∀ n < 128, IsSmall (lowerChar (Char.ofNat n)) ∧
    (lowerChar (Char.ofNat n) = '.' → Char.ofNat n = '.') := by
  have hall : (List.range 128).all (fun n =>
      let small := lowerChar (Char.ofNat n)
      small != capitalSigma && small.toNat != 0x130 && lowerChar small == small &&
        (small != '.' || Char.ofNat n == '.')) = true := by
    decide +kernel
  intro n hn
  have h := List.all_eq_true.mp hall n (List.mem_range.mpr hn)
  simp only [Bool.and_eq_true, bne_iff_ne, ne_eq, beq_iff_eq, Bool.or_eq_true] at h
  obtain ⟨⟨⟨hsigma, hdotted⟩, hsame⟩, hdot⟩ := h
  exact ⟨⟨hsigma, hdotted, hsame⟩, fun hd => hdot.resolve_left fun hnot => hnot hd⟩

variable {code : Nat} {run : CaseRun} {c : Char} {chars before : List Char}

theorem find?_caseRuns (h : caseRuns.find? (fun run => run.first ≤ code && code ≤ run.last &&
      (code - run.first) % run.stride == 0) = some run) : run ∈ caseRuns ∧ run.Holds code := by
  refine ⟨Array.mem_of_find?_eq_some h, ?_⟩
  have hholds := Array.find?_some h
  simp only [Bool.and_eq_true, decide_eq_true_eq, beq_iff_eq] at hholds
  exact ⟨hholds.1.1, hholds.1.2, hholds.2⟩

theorem lowerChar_of_no_run (hc : 128 ≤ c.toNat) (h : ∀ run ∈ caseRuns, ¬ run.Holds c.toNat) :
    lowerChar c = c := by
  unfold lowerChar
  rw [if_neg (Nat.not_lt.mpr hc)]
  split
  · rename_i run hfind
    obtain ⟨hmem, hholds⟩ := find?_caseRuns hfind
    exact absurd hholds (h run hmem)
  · rfl

/-- Whether a code point lies before a run or behind it. -/
def Table.CaseRun.misses (run : CaseRun) (code : Nat) : Bool :=
  Nat.blt code run.first || Nat.blt run.last code

theorem lowerChar_of_misses (hc : 128 ≤ c.toNat)
    (h : (caseRuns.toList.all fun run => run.misses c.toNat) = true) : lowerChar c = c := by
  refine lowerChar_of_no_run hc fun run hrun hholds => ?_
  have hmisses := List.all_eq_true.mp h run (Array.mem_toList_iff.mpr hrun)
  simp only [CaseRun.misses, Bool.or_eq_true, Nat.blt_eq] at hmisses
  obtain ⟨hfirst, hlast, -⟩ := hholds
  omega

theorem CaseRun.small_mem (hplaced : run.wellPlaced = true) (h : run.Holds code) :
    run.firstSmall ≤ (code + run.shift).toNat ∧ (code + run.shift).toNat ≤ run.lastSmall ∧
      ((code + run.shift).toNat - run.firstSmall) = code - run.first := by
  simp only [CaseRun.wellPlaced, Bool.and_eq_true, decide_eq_true_eq] at hplaced
  obtain ⟨hfirst, hlast, -⟩ := h
  unfold CaseRun.firstSmall CaseRun.lastSmall
  omega

theorem CaseRun.not_holds_small {other : CaseRun} (hplaced : run.wellPlaced = true)
    (happart : run.apart other = true) (h : run.Holds code) :
    ¬ other.Holds (code + run.shift).toNat := by
  obtain ⟨hfirst, hlast, hstep⟩ := CaseRun.small_mem hplaced h
  rintro ⟨hfirst', hlast', hstep'⟩
  simp only [CaseRun.apart, Bool.or_eq_true, Bool.and_eq_true, Nat.blt_eq, beq_iff_eq] at happart
  rcases happart with (hbefore | hbehind) | ⟨⟨hstride, hrun⟩, hodd⟩
  · omega
  · omega
  · rw [hstride] at hstep'
    obtain ⟨hmin, hmax, hmod⟩ := h
    rcases hrun with heven | hsingle
    · rw [heven] at hmod
      omega
    · omega

theorem toNat_ofNat_small (hplaced : run.wellPlaced = true) (h : run.Holds code) :
    (Char.ofNat (code + run.shift).toNat).toNat = (code + run.shift).toNat := by
  obtain ⟨hfirst, hlast, -⟩ := CaseRun.small_mem hplaced h
  simp only [CaseRun.wellPlaced, Bool.and_eq_true, Bool.or_eq_true, decide_eq_true_eq] at hplaced
  have hvalid : (code + run.shift).toNat.isValidChar := by
    unfold Nat.isValidChar
    omega
  rw [Char.ofNat, dif_pos hvalid]
  rfl

/-- The small letter of any character but the two that have none of their own is small, and only
the dot goes to the dot. -/
theorem lowerChar_isSmall (hsigma : c ≠ capitalSigma) (hdotted : c.toNat ≠ 0x130) :
    IsSmall (lowerChar c) ∧ (lowerChar c = '.' → c = '.') := by
  by_cases hascii : c.toNat < 128
  · have h := lowerChar_ascii c.toNat hascii
    rwa [Char.ofNat_toNat] at h
  · cases hfind : caseRuns.find? (fun run => run.first ≤ c.toNat && c.toNat ≤ run.last &&
        (c.toNat - run.first) % run.stride == 0) with
    | none =>
      have hsame : lowerChar c = c := by
        simp only [lowerChar, if_neg hascii, hfind]
      rw [hsame]
      exact ⟨⟨hsigma, hdotted, hsame⟩, id⟩
    | some run =>
      have hsmall : lowerChar c = Char.ofNat (c.toNat + run.shift).toNat := by
        simp only [lowerChar, if_neg hascii, hfind]
      obtain ⟨hmem, hholds⟩ := find?_caseRuns hfind
      have hplaced := List.all_eq_true.mp caseRuns_wellPlaced run (Array.mem_toList_iff.mpr hmem)
      have hcode := toNat_ofNat_small hplaced hholds
      obtain ⟨hfirst, hlast, -⟩ := CaseRun.small_mem hplaced hholds
      have hbounds := hplaced
      simp only [CaseRun.wellPlaced, Bool.and_eq_true, Bool.or_eq_true, decide_eq_true_eq,
        beq_iff_eq] at hbounds
      rw [hsmall]
      refine ⟨⟨?_, ?_, ?_⟩, ?_⟩
      · intro heq
        have hnat := congrArg Char.toNat heq
        rw [hcode] at hnat
        change _ = 0x3A3 at hnat
        omega
      · omega
      · by_cases hlow : (c.toNat + run.shift).toNat < 128
        · have hk : (c.toNat + run.shift).toNat = 107 := by omega
          rw [hk]
          decide
        · refine lowerChar_of_no_run (by omega) fun other hother => ?_
          rw [hcode]
          refine CaseRun.not_holds_small hplaced ?_ hholds
          have hrow := List.all_eq_true.mp caseRuns_apart run (Array.mem_toList_iff.mpr hmem)
          exact List.all_eq_true.mp hrow other (Array.mem_toList_iff.mpr hother)
      · intro heq
        have hnat := congrArg Char.toNat heq
        rw [hcode] at hnat
        change _ = 46 at hnat
        omega

/-- The small letters of one character, in the given surroundings. -/
theorem lowerAfter_cons (before : List Char) (c : Char) (rest : List Char) :
    ∃ small, lowerAfter before (c :: rest) = small ++ lowerAfter (c :: before) rest ∧ small ≠ [] ∧
      (∀ x ∈ small, IsSmall x) ∧ ('.' ∈ small ↔ c = '.') := by
  rw [lowerAfter]
  refine ⟨_, rfl, ?_, ?_, ?_⟩
  · split_ifs <;> simp
  · split_ifs with hsigma hfinal hdotted
    · have hsmall : IsSmall (Char.ofNat 0x3C2) :=
        ⟨by decide, by decide, lowerChar_of_misses (by decide) (by decide +kernel)⟩
      simpa using hsmall
    · have hsmall : IsSmall (Char.ofNat 0x3C3) :=
        ⟨by decide, by decide, lowerChar_of_misses (by decide) (by decide +kernel)⟩
      simpa using hsmall
    · have hi : IsSmall 'i' := ⟨by decide, by decide, by decide⟩
      have hmark : IsSmall (Char.ofNat 0x307) :=
        ⟨by decide, by decide, lowerChar_of_misses (by decide) (by decide +kernel)⟩
      simpa using ⟨hi, hmark⟩
    · have hsmall := (lowerChar_isSmall (by simpa using hsigma) (by simpa using hdotted)).1
      simpa using hsmall
  · constructor
    · split_ifs with hsigma hfinal hdotted
      · simp
      · simp
      · simp
      · intro hmem
        rw [List.mem_singleton] at hmem
        exact (lowerChar_isSmall (by simpa using hsigma) (by simpa using hdotted)).2 hmem.symm
    · rintro rfl
      rw [if_neg (by decide), if_neg (by decide)]
      decide

theorem lowerAfter_isSmall (before chars : List Char) : ∀ x ∈ lowerAfter before chars, IsSmall x := by
  induction chars generalizing before with
  | nil => simp [lowerAfter]
  | cons c rest ih =>
    obtain ⟨small, hcons, -, hsmall, -⟩ := lowerAfter_cons before c rest
    intro x hx
    rw [hcons] at hx
    rcases List.mem_append.mp hx with hx | hx
    · exact hsmall x hx
    · exact ih _ x hx

/-- A stretch of small letters stays as it is. -/
theorem lowerAfter_of_isSmall (h : ∀ x ∈ chars, IsSmall x) (before : List Char) :
    lowerAfter before chars = chars := by
  induction chars generalizing before with
  | nil => rfl
  | cons c rest ih =>
    have hc := h c List.mem_cons_self
    have hsigma : (c == capitalSigma) = false := by simpa using hc.not_sigma
    have hdotted : (c.toNat == 0x130) = false := by simpa using hc.not_dotted
    simp only [lowerAfter, hsigma, hdotted, Bool.false_eq_true, ↓reduceIte, hc.lowerChar_eq]
    rw [ih (fun x hx => h x (List.mem_cons_of_mem c hx))]
    rfl

theorem lower_lower (text : String) : lower (lower text) = lower text := by
  unfold lower
  rw [String.toList_ofList, lowerAfter_of_isSmall (lowerAfter_isSmall [] _)]

theorem lowerAfter_eq_nil : lowerAfter before chars = [] ↔ chars = [] := by
  constructor
  · intro h
    cases chars with
    | nil => rfl
    | cons c rest =>
      obtain ⟨small, hcons, hne, -⟩ := lowerAfter_cons before c rest
      rw [hcons] at h
      exact absurd (List.append_eq_nil_iff.mp h).1 hne
  · rintro rfl
    rfl

theorem lower_eq_empty {text : String} : lower text = "" ↔ text = "" := by
  rw [← String.toList_inj, lower, String.toList_ofList]
  exact lowerAfter_eq_nil.trans (by rw [← String.toList_inj]; rfl)

theorem dot_mem_lowerAfter : '.' ∈ lowerAfter before chars ↔ '.' ∈ chars := by
  induction chars generalizing before with
  | nil => simp [lowerAfter]
  | cons c rest ih =>
    obtain ⟨small, hcons, -, -, hdot⟩ := lowerAfter_cons before c rest
    rw [hcons, List.mem_append, hdot, ih, List.mem_cons, eq_comm]

theorem dot_mem_lower {text : String} : '.' ∈ (lower text).toList ↔ '.' ∈ text.toList := by
  rw [lower, String.toList_ofList, dot_mem_lowerAfter]

end SattLine.Text
