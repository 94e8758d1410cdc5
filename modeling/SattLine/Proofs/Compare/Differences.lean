import SattLine.Compare.Difference
import SattLine.Proofs.Sorting
import SattLine.Proofs.Steps

/-!
What variants have in common and what is left of each. Main statement: the common part and the rest
of a variant split it up, whether it is seen as a set of parameters, of local variables, of nodes, of
sequences or of equations; what is in the rest is missing from some variant, and it is in no other
variant only if all that two variants share is in all of them.
-/

namespace SattLine.Compare

open List

/-- The common part and the rests of variants that are given by the keys of what they have. -/
structure Difference.Splits {α β : Type} (key : α → β) (variants : List (List β))
    (d : Difference α) : Prop where
  /-- There is a rest for every variant. -/
  length_rest : d.rest.length = variants.length
  /-- Nothing is both common and left. -/
  apart : ∀ own ∈ d.rest, ∀ a ∈ d.common, ∀ b ∈ own, key a ≠ key b
  /-- A variant has what is common and what is left of it. -/
  together : ∀ {i : Nat} {keys : List β} {own : List α}, variants[i]? = some keys →
    d.rest[i]? = some own →
    ∀ k, k ∈ keys ↔ k ∈ d.common.map key ∨ k ∈ own.map key
  /-- What is left of a variant is missing from another one. -/
  lacking : ∀ own ∈ d.rest, ∀ a ∈ own, ∃ keys ∈ variants, key a ∉ keys
  /-- What is left of each variant is in no other one exactly if all that two variants share is in
  all of them. -/
  isolated_iff : (∀ (i j : Nat) (own : List α) (keys : List β), d.rest[i]? = some own →
      variants[j]? = some keys → i ≠ j → ∀ a ∈ own, key a ∉ keys) ↔
    ∀ (i j : Nat) (keys others : List β), variants[i]? = some keys → variants[j]? = some others →
      i ≠ j → ∀ k ∈ keys, k ∈ others → ∀ all ∈ variants, k ∈ all

section Splits

variable {α β : Type} {key : α → β} {variants : List (List β)} {d : Difference α}

/-- It is enough to know what is common and what is left. -/
theorem Difference.Splits.of_mem (hlength : d.rest.length = variants.length)
    (hcommon : variants ≠ [] → ∀ k, k ∈ d.common.map key ↔ ∀ keys ∈ variants, k ∈ keys)
    (hrest : ∀ {i : Nat} {keys : List β} {own : List α}, variants[i]? = some keys →
      d.rest[i]? = some own → ∀ k, k ∈ own.map key ↔ k ∈ keys ∧ ∃ others ∈ variants, k ∉ others) :
    d.Splits key variants := by
  have hkeys : ∀ {i : Nat} {own : List α}, d.rest[i]? = some own →
      ∃ keys, variants[i]? = some keys := by
    intro i own hown
    have hi : i < variants.length := hlength ▸ (List.getElem?_eq_some_iff.mp hown).1
    exact ⟨_, List.getElem?_eq_getElem hi⟩
  have hlacking : ∀ own ∈ d.rest, ∀ a ∈ own, ∃ keys ∈ variants, key a ∉ keys := by
    intro own hown a ha
    obtain ⟨i, hi⟩ := mem_iff_getElem?.mp hown
    obtain ⟨keys, hk⟩ := hkeys hi
    exact ((hrest hk hi (key a)).mp (mem_map_of_mem ha)).2
  refine ⟨hlength, ?_, ?_, hlacking, ?_⟩
  · intro own hown a ha b hb heq
    obtain ⟨keys, hmem, hnot⟩ := hlacking own hown b hb
    exact hnot (heq ▸ (hcommon (ne_nil_of_mem hmem) _).mp (mem_map_of_mem ha) keys hmem)
  · intro i keys own hvariant hown k
    have hmem := mem_of_getElem? hvariant
    rw [hcommon (ne_nil_of_mem hmem), hrest hvariant hown]
    constructor
    · intro hk
      by_cases hall : ∀ others ∈ variants, k ∈ others
      · exact .inl hall
      · refine .inr ⟨hk, ?_⟩
        simpa using hall
    · rintro (hall | ⟨hk, -⟩)
      · exact hall keys hmem
      · exact hk
  · constructor
    · intro hisolated i j keys others hvariant hother hne k hk hshared all hall
      by_contra hnot
      have hi : i < d.rest.length := hlength ▸ (List.getElem?_eq_some_iff.mp hvariant).1
      have hown := List.getElem?_eq_getElem hi
      obtain ⟨a, ha, rfl⟩ := mem_map.mp ((hrest hvariant hown k).mpr ⟨hk, all, hall, hnot⟩)
      exact hisolated i j _ _ hown hother hne a ha hshared
    · intro hshared i j own keys hown hvariant hne a ha hmem
      obtain ⟨own_keys, hi⟩ := hkeys hown
      obtain ⟨hk, others, hothers, hnot⟩ := (hrest hi hown (key a)).mp (mem_map_of_mem ha)
      exact hnot (hshared i j _ _ hi hvariant hne (key a) hk hmem others hothers)

end Splits

section Sets

variable {α : Type} [BEq α] [LawfulBEq α] {sets : List (List α)}

theorem mem_commonOf (h : sets ≠ []) {a : α} : a ∈ commonOf sets ↔ ∀ set ∈ sets, a ∈ set := by
  cases sets with
  | nil => exact (h rfl).elim
  | cons first others => simp [commonOf]

theorem differenceOfSets_splits (sets : List (List α)) :
    (differenceOfSets sets).Splits id sets := by
  refine .of_mem (by simp [differenceOfSets]) (fun hne k => ?_) ?_
  · simpa [differenceOfSets] using mem_commonOf hne
  · intro i keys own hvariant hown k
    have hne := ne_nil_of_mem (mem_of_getElem? hvariant)
    simp only [differenceOfSets, List.getElem?_map, hvariant, Option.map_some,
      Option.some.injEq] at hown
    subst hown
    simp [mem_commonOf hne]

end Sets

section Names

variable {names own : List String} {plain : String}

theorem spelling_mem (h : plain ∈ names.map plainName) :
    spelling names plain ∈ names ∧ plainName (spelling names plain) = plain := by
  obtain ⟨name, hname, hplain⟩ := mem_map.mp h
  have hsome : (names.reverse.find? fun name => plainName name == plain).isSome := by
    rw [List.find?_isSome]
    exact ⟨name, mem_reverse.mpr hname, by simpa using hplain⟩
  obtain ⟨found, hfound⟩ := Option.isSome_iff_exists.mp hsome
  rw [spelling, hfound, Option.getD_some]
  exact ⟨mem_reverse.mp (mem_of_find?_eq_some hfound),
    by simpa using List.find?_some hfound⟩

theorem map_plainName_spelling (h : ∀ plain ∈ own, plain ∈ names.map plainName) :
    (own.map (spelling names)).map plainName = own := by
  rw [map_map]
  conv_rhs => rw [← map_id own]
  exact map_congr_left fun plain hplain => (spelling_mem (h plain hplain)).2

/-- The plain names of each variant, as a set. -/
def plainSets (variants : List (List String)) : List (List String) :=
  variants.map fun names => Text.sortedSet (names.map plainName)

theorem mem_commonOf_plainSets {variants : List (List String)} (h : variants ≠ []) :
    plain ∈ commonOf (plainSets variants) ↔ ∀ keys ∈ variants.map (·.map plainName), plain ∈ keys := by
  rw [mem_commonOf (by simpa [plainSets] using h)]
  simp [plainSets, Text.mem_sortedSet]

/-- What is left of a variant: its plain names without the common ones, spelled as in the variant. -/
def restOf (common names : List String) : List String :=
  ((Text.sortedSet (names.map plainName)).filter fun plain => !common.contains plain).map
    (spelling names)

theorem differenceOfNames_rest (variants : List (List String)) :
    (differenceOfNames variants).rest = variants.map (restOf (commonOf (plainSets variants))) := by
  simp only [differenceOfNames, differenceOfSets, map_map, zip_eq_zipWith,
    zipWith_map_right, zipWith_self]
  rfl

theorem map_plainName_restOf (common names : List String) :
    (restOf common names).map plainName =
      (Text.sortedSet (names.map plainName)).filter fun plain => !common.contains plain :=
  map_plainName_spelling fun _ hplain => Text.mem_sortedSet.mp (mem_of_mem_filter hplain)

theorem differenceOfNames_splits (variants : List (List String)) :
    (differenceOfNames variants).Splits plainName (variants.map (·.map plainName)) := by
  refine .of_mem (by simp [differenceOfNames_rest]) (fun hne k => ?_) ?_
  · cases variants with
    | nil => exact (hne rfl).elim
    | cons first others =>
      have hcommon : (differenceOfNames (first :: others)).common.map plainName =
          commonOf (plainSets (first :: others)) :=
        map_plainName_spelling fun plain hplain =>
          (mem_commonOf_plainSets (cons_ne_nil _ _)).mp hplain _ mem_cons_self
      rw [hcommon, mem_commonOf_plainSets (cons_ne_nil _ _)]
  · intro i keys own hvariant hown k
    rw [List.getElem?_map, Option.map_eq_some_iff] at hvariant
    obtain ⟨names, hnames, rfl⟩ := hvariant
    rw [differenceOfNames_rest, List.getElem?_map, hnames, Option.map_some, Option.some.injEq] at hown
    have hne : variants ≠ [] := ne_nil_of_mem (mem_of_getElem? hnames)
    rw [← hown, map_plainName_restOf, mem_filter, Text.mem_sortedSet]
    refine and_congr_right fun _ => ?_
    have hcommon : k ∈ commonOf (plainSets variants) ↔ _ := mem_commonOf_plainSets hne
    simp [hcommon]

end Names

/-- The name of a piece of code, if it has one. -/
def nameOf (v : Value) : String :=
  ((codeName v).toOption).getD ""

theorem mapM_codeName {items : List Value} (h : ∀ v ∈ items, ∃ name, codeName v = .ok name) :
    items.mapM codeName = .ok (items.map nameOf) := by
  rw [mapM_eq_ok_iff, forall₂_map_right_iff]
  refine forall₂_same.mpr fun v hv => ?_
  obtain ⟨name, hname⟩ := h v hv
  rw [nameOf, hname]
  rfl

/-- The differences between variants whose code has names. In each of the five respects the common
part and the rest of a variant split it up. -/
theorem differences_split {variants : List Fingerprint}
    (h : ∀ f ∈ variants, ∀ v ∈ f.sequences ++ f.equations, ∃ name, codeName v = .ok name) :
    ∃ d, differences variants = .ok d ∧
      d.parameters.Splits plainName (variants.map fun f => f.info.parameters.map (plainName ·.name)) ∧
      d.locals.Splits plainName (variants.map fun f => f.info.locals.map (plainName ·.name)) ∧
      d.tree.Splits id (variants.map (·.tree)) ∧
      d.sequences.Splits plainName (variants.map fun f => f.sequences.map (plainName <| nameOf ·)) ∧
      d.equations.Splits plainName (variants.map fun f => f.equations.map (plainName <| nameOf ·)) := by
  have hsequences : (variants.mapM fun f => f.sequences.mapM codeName) =
      .ok (variants.map fun f => f.sequences.map nameOf) := by
    rw [mapM_eq_ok_iff, forall₂_map_right_iff]
    exact forall₂_same.mpr fun f hf =>
      mapM_codeName fun v hv => h f hf v (mem_append_left _ hv)
  have hequations : (variants.mapM fun f => f.equations.mapM codeName) =
      .ok (variants.map fun f => f.equations.map nameOf) := by
    rw [mapM_eq_ok_iff, forall₂_map_right_iff]
    exact forall₂_same.mpr fun f hf =>
      mapM_codeName fun v hv => h f hf v (mem_append_right _ hv)
  refine ⟨_, by rw [differences, hsequences, hequations]; rfl, ?_, ?_, differenceOfSets_splits _, ?_, ?_⟩
  · simpa [Function.comp_def] using
      differenceOfNames_splits (variants.map fun f => f.info.parameters.map (·.name))
  · simpa [Function.comp_def] using
      differenceOfNames_splits (variants.map fun f => f.info.locals.map (·.name))
  · simpa [Function.comp_def] using
      differenceOfNames_splits (variants.map fun f => f.sequences.map nameOf)
  · simpa [Function.comp_def] using
      differenceOfNames_splits (variants.map fun f => f.equations.map nameOf)

/-! Two of three pumps have a parameter `x`. -/

def parameterNamed (name : String) : Variable :=
  ⟨0, name, .simple .integer, .bool false, .bool false, .bool false, .bool false, .bool false, .null,
    .null⟩

def pumpWith (names : List String) : Fingerprint :=
  ⟨[], ⟨⟨"Pump", .null, .null, .null, .null, .null, .null, .null, .null⟩, .null, .null,
    names.map parameterNamed, [], .null, [], []⟩, [], [], [], [], [], [], []⟩

def threePumps : List Fingerprint :=
  [pumpWith ["x"], pumpWith ["X ", "y"], pumpWith []]

theorem threePumps_split : ∃ d, differences threePumps = .ok d ∧
    d.parameters.Splits plainName [[plainName "x"], [plainName "X ", plainName "y"], []] := by
  obtain ⟨d, hd, hparameters, -⟩ := @differences_split threePumps (by simp [threePumps, pumpWith])
  exact ⟨d, hd, hparameters⟩

/-- What is left of one of the pumps is in another one. -/
theorem shared_parameter_left : ∃ d, differences threePumps = .ok d ∧
    ¬ ∀ (i j : Nat) (own keys : List String), d.parameters.rest[i]? = some own →
      (threePumps.map fun f => f.info.parameters.map (plainName ·.name))[j]? = some keys → i ≠ j →
        ∀ a ∈ own, plainName a ∉ keys := by
  refine ⟨_, rfl, fun hisolated => ?_⟩
  have hshared := (differenceOfNames_splits [["x"], ["X ", "y"], []]).isolated_iff.mp hisolated
  have hmissing := hshared 0 1 _ _ rfl rfl (by decide) (plainName "x") mem_cons_self
    (by rw [show plainName "x" = plainName "X " from by decide]; exact mem_cons_self) []
    (by simp)
  cases hmissing

end SattLine.Compare
