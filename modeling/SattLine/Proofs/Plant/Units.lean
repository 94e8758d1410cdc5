import SattLine.Plant.Station
import SattLine.Proofs.Sorting
import SattLine.Proofs.Text.Joined

/-!
Units, which are kept as texts. Main statement: the units that programs serve are told from the texts
of the components alone, and they are the units of all these components, each once and in order.
-/

namespace SattLine.Text

open List

/-- The code points of blanks. -/
def blankCodes : List Nat :=
  [9, 10, 11, 12, 13, 28, 29, 30, 31, 32, 0x85, 0xA0, 0x1680] ++ range' 0x2000 11 ++
    [0x2028, 0x2029, 0x202F, 0x205F, 0x3000]

theorem mem_blankCodes {c : Char} (h : isSpace c = true) : c.toNat ∈ blankCodes := by
  simp only [isSpace, Bool.or_eq_true, Bool.and_eq_true, decide_eq_true_eq, beq_iff_eq] at h
  simp only [blankCodes, mem_append, mem_cons, mem_range'_1, not_mem_nil, or_false]
  omega

theorem isSpace_of_isWordChar {c : Char} (h : isWordChar c = true) : isSpace c = false := by
  by_contra hspace
  have hnone : ∀ code ∈ blankCodes, isWordChar (Char.ofNat code) = false := by decide +kernel
  have hword := hnone _ (mem_blankCodes (Bool.eq_true_of_not_eq_false hspace))
  rw [Char.ofNat_toNat, h] at hword
  cases hword

/-- A text of word characters. -/
structure IsWord (text : String) : Prop where
  ne_empty : text ≠ ""
  all_word : ∀ c ∈ text.toList, isWordChar c = true

theorem trimStart_eq_self {chars : List Char} (h : ∀ c ∈ chars, isSpace c = false) :
    trimStart chars = chars := by
  cases chars with
  | nil => rfl
  | cons c rest => exact dropWhile_cons_of_neg (by simp [h c mem_cons_self])

theorem IsWord.isPlain {text : String} (h : IsWord text) : IsPlain text where
  no_comma hcomma := absurd (h.all_word ',' hcomma) (by decide)
  trimmed := by
    have hspace : ∀ c ∈ text.toList, isSpace c = false := fun c hc =>
      isSpace_of_isWordChar (h.all_word c hc)
    rw [trim, trimStart_eq_self hspace, trimStart_eq_self fun c hc => hspace c (mem_reverse.mp hc),
      reverse_reverse, String.ofList_toList]

end SattLine.Text

namespace SattLine.Plant

open List

/-- The text of units, of which there is at least one. -/
def countedText (names : List String) : String :=
  "(" ++ toString names.length ++ ") " ++ ", ".intercalate names

/-- The texts that stand in the place of units, where there are none. -/
def unitMarkers : List String :=
  [noUnits, noProgramFile, unreadableProgramFile, notApplicable]

/-- A text keeps these units: it lists them, in order and with their number, or it says why there are
none. -/
inductive Keeps : String → List String → Prop
  | marker {text : String} : text ∈ unitMarkers → Keeps text []
  | counted {names : List String} : names ≠ [] → names.Pairwise (· < ·) →
      (∀ name ∈ names, Text.IsWord name) → Keeps (countedText names) names

section Reading

variable {chars rest : List Char} {names units : List String} {text : String}

theorem afterBracket?_append (h : ')' ∉ chars) :
    afterBracket? (chars ++ ')' :: ' ' :: rest) = some rest := by
  induction chars with
  | nil => rfl
  | cons c more ih =>
    obtain ⟨hc, hmore⟩ := not_or.mp (mem_cons.not.mp h)
    cases more with
    | nil => simp [afterBracket?]
    | cons d others => simpa [afterBracket?, Ne.symm hc] using ih hmore

theorem bracket_not_mem_number (n : Nat) : ')' ∉ (toString n).toList := by
  intro hmem
  have hdigits : ')' ∈ Nat.toDigits 10 n := by simpa using hmem
  exact absurd (Nat.isDigit_of_mem_toDigits (by decide) (by decide) hdigits) (by decide)

theorem toList_countedText (names : List String) : (countedText names).toList =
    ('(' :: (toString names.length).toList) ++ ')' :: ' ' :: (", ".intercalate names).toList := by
  simp [countedText]

theorem unitNames?_countedText (names : List String) :
    unitNames? (countedText names) = some (", ".intercalate names) := by
  have hbracket : ')' ∉ '(' :: (toString names.length).toList :=
    not_mem_cons_of_ne_of_not_mem (by decide) (bracket_not_mem_number _)
  rw [unitNames?, toList_countedText, afterBracket?_append hbracket, if_pos (by simp), Option.map_some,
    String.ofList_toList]

/-- The units that a text keeps are read from it. -/
theorem Keeps.readUnits_eq (h : Keeps text units) : readUnits text = units := by
  cases h with
  | marker hmarker =>
    have hmarkers : ∀ marker ∈ unitMarkers, readUnits marker = [] := by decide
    exact hmarkers _ hmarker
  | counted hne _ hword =>
    rw [readUnits, unitNames?_countedText]
    exact Text.splitAtChar_joined hne fun name hname => (hword name hname).isPlain

theorem unitsText_eq (units : List String) :
    unitsText units =
      if Text.sortedSet units = [] then noUnits else countedText (Text.sortedSet units) := by
  rw [unitsText]
  split
  · rename_i hnil
    rw [if_pos hnil]
  · rename_i hne
    rw [if_neg hne, countedText]

/-- A text of units does not read like a marker. -/
theorem countedText_ne_noUnits (names : List String) : countedText names ≠ noUnits := by
  intro heq
  have hfirst := congrArg (fun text => text.toList.head?) heq
  rw [toList_countedText] at hfirst
  exact absurd hfirst (by simp [noUnits])

end Reading

section Serving

variable {components : List Component} {unitsOf : Component → List String} {programs : List String}

theorem readUnits_served (h : ∀ c ∈ components, Keeps c.units (unitsOf c)) :
    ((programs.filterMap (component? components)).flatMap fun c => readUnits c.units) =
      (programs.filterMap (component? components)).flatMap unitsOf := by
  refine flatMap_congr fun c hc => ?_
  obtain ⟨program, -, hfound⟩ := mem_filterMap.mp hc
  exact (h c (mem_of_find?_eq_some hfound)).readUnits_eq

end Serving

/-! A mill and a kiln that serve one unit together, and a dryer whose code is missing. -/

def mill : Component :=
  ⟨"Mill", programKind, noAddressFile, noController, countedText ["Rolls", "Sieve"], []⟩

def kiln : Component :=
  ⟨"Kiln", programKind, noAddressFile, noController, countedText ["Sieve"], []⟩

def dryer : Component :=
  ⟨"Dryer", programKind, noAddressFile, noController, noProgramFile, []⟩

def kilnPlant : List Component := [mill, kiln, dryer]

def kilnUnits (c : Component) : List String :=
  if c.name = "Mill" then ["Rolls", "Sieve"] else if c.name = "Kiln" then ["Sieve"] else []

theorem keeps_kilnUnits : ∀ c ∈ kilnPlant, Keeps c.units (kilnUnits c) := by
  have hrolls : Text.IsWord "Rolls" := ⟨by decide, all_eq_true.mp (by decide)⟩
  have hsieve : Text.IsWord "Sieve" := ⟨by decide, all_eq_true.mp (by decide)⟩
  intro c hc
  simp only [kilnPlant, mem_cons, not_mem_nil, or_false] at hc
  rcases hc with rfl | rfl | rfl
  · exact .counted (by simp) (by decide) (by simp [hrolls, hsieve])
  · exact .counted (by simp) (by decide) (by simp [hsieve])
  · exact .marker (by decide)

end SattLine.Plant
