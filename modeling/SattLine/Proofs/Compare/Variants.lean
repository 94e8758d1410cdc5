import Mathlib.Algebra.BigOperators.Group.Finset.Piecewise
import SattLine.Compare.Difference
import SattLine.Proofs.Steps

/-!
The variants of a module and the instances that are shown under each of them. Main statement: under
a variant stand the instances of its shape that no earlier variant has the shape of, and these are
the instances of its own group only if no other variant has its shape.
-/

namespace SattLine.Compare

open List

/-- Null, whole numbers and texts are plain keys. -/
def isPlain : Value.Key → Bool
  | .null | .number _ 0 | .text none _ => true
  | _ => false

theorem beq_iff_of_isPlain {a b : Value.Key} (ha : isPlain a = true) (hb : isPlain b = true) :
    (a == b) = true ↔ a = b := by
  change Value.Key.same a b = true ↔ a = b
  unfold isPlain at ha hb
  split at ha <;> split at hb <;>
    simp_all [Value.Key.same, Value.Key.compareScaled, Number.twoTo]

theorem beq_iff_of_mem {α : Type} [BEq α] {xs ys : List α}
    (h : ∀ x ∈ xs, ∀ y ∈ ys, (x == y) = true ↔ x = y) : (xs == ys) = true ↔ xs = ys := by
  induction xs generalizing ys with
  | nil => cases ys <;> simp
  | cons x rest ih =>
    cases ys with
    | nil => simp
    | cons y others =>
      have hrest := @ih others fun a ha b hb => h a (by simp [ha]) b (by simp [hb])
      simp [h x (by simp) y (by simp), hrest]

namespace Fingerprint

/-- All that instances of one shape have in common. -/
def shape (f : Fingerprint) :=
  ((f.info.parameters.length, f.info.locals.length, f.submodules.length, f.sequences.length,
    f.equations.length), f.parameters, f.locals, f.tree, f.mappings)

/-- The profiles of the fingerprint have plain keys, and its date can be shown. -/
structure IsPlain (f : Fingerprint) : Prop where
  keys : ∀ profile ∈ f.parameters ++ f.locals ++ f.mappings, ∀ key ∈ profile, isPlain key = true
  date : ∃ text, f.info.dateCode.shown = .ok text

theorem sameShape_iff {f g : Fingerprint} (hf : f.IsPlain) (hg : g.IsPlain) :
    f.sameShape g = true ↔ f.shape = g.shape := by
  have hbeq : ∀ ps qs : List Profile, ps ⊆ f.parameters ++ f.locals ++ f.mappings →
      qs ⊆ g.parameters ++ g.locals ++ g.mappings → ((ps == qs) = true ↔ ps = qs) :=
    fun ps qs hps hqs => beq_iff_of_mem fun p hp q hq => beq_iff_of_mem fun k hk l hl =>
      beq_iff_of_isPlain (hf.keys p (hps hp) k hk) (hg.keys q (hqs hq) l hl)
  simp only [sameShape, shape, Bool.and_eq_true, beq_iff_eq, Prod.mk.injEq, and_assoc,
    hbeq f.parameters g.parameters (by simp) (by simp), hbeq f.locals g.locals (by simp) (by simp),
    hbeq f.mappings g.mappings (by simp) (by simp)]

end Fingerprint

section Representatives

variable {named : List (Fingerprint × CodeNames)}

/-- What the instances of one variant agree in. -/
def groupKey (entry : Fingerprint × CodeNames) :=
  (entry.1.shape, entry.2)

theorem representatives_spec (h : ∀ e ∈ named, e.1.IsPlain) :
    (representatives named).Sublist named ∧
      (∀ e ∈ named, ∃ first ∈ representatives named, groupKey first = groupKey e) ∧
      (representatives named).Pairwise fun a b => groupKey a ≠ groupKey b := by
  induction named with
  | nil => exact ⟨.slnil, by simp, .nil⟩
  | cons head rest ih =>
    obtain ⟨hsub, hcovered, hapart⟩ := ih fun e he => h e (mem_cons_of_mem _ he)
    have hkey : ∀ e ∈ representatives rest,
        (head.1.sameShape e.1 && head.2 == e.2) = true ↔ groupKey head = groupKey e := by
      intro e he
      have hplain := h e (mem_cons_of_mem _ (hsub.subset he))
      rw [Bool.and_eq_true, Fingerprint.sameShape_iff (h head mem_cons_self) hplain, beq_iff_eq,
        groupKey, groupKey, ← Prod.mk_inj]
    refine ⟨(filter_sublist.trans hsub).cons_cons head, fun e he => ?_,
      .cons (fun e he heq => ?_) (hapart.filter _)⟩
    · rcases mem_cons.mp he with rfl | he
      · exact ⟨e, mem_cons_self, rfl⟩
      · obtain ⟨first, hfirst, hsame⟩ := hcovered e he
        by_cases heq : groupKey head = groupKey first
        · exact ⟨head, mem_cons_self, heq.trans hsame⟩
        · refine ⟨first, mem_cons_of_mem _ (mem_filter.mpr ⟨hfirst, ?_⟩), hsame⟩
          exact Bool.not_eq_true' _ ▸ Bool.eq_false_of_not_eq_true (mt (hkey first hfirst).mp heq)
    · obtain ⟨he, hother⟩ := mem_filter.mp he
      simp [(hkey e he).mpr heq] at hother

end Representatives

namespace Comparison

/-- The variants are instances, one for each shape with names of code. -/
structure Grouped (c : Comparison) : Prop where
  subset : ∀ v ∈ c.variants, v ∈ c.instances
  covered : ∀ f ∈ c.instances, ∃ v ∈ c.variants, f.shape = v.shape ∧ codeNames f = codeNames v
  apart : c.variants.Pairwise fun v w => ¬ (v.shape = w.shape ∧ codeNames v = codeNames w)

/-- The instances that are shown under a variant. -/
def shownUnder (c : Comparison) (index : Nat) : List Fingerprint :=
  c.instances.filter fun f => variantOf c.variants f == some index

/-- The lines above the variants. -/
def opening (c : Comparison) : List String :=
  ["Module Name: " ++ Text.quoted c.name,
    "Total Instances Found: " ++ toString c.instances.length,
    "Unique Variants: " ++ toString c.variants.length, "",
    "⚠ Found " ++ toString c.variants.length ++ " different structural variants", ""]

end Comparison

variable {found : List (Path × Value)} {c : Comparison}

theorem compareAll_eq (found : List (Path × Value)) :
    compareAll found = do
      let instances ← found.mapM fun entry => Fingerprint.ofValue entry.1 entry.2
      let named ← instances.mapM fun f => do return (f, ← codeNames f)
      let variants := (representatives named).map Prod.fst
      let own ← (if 1 < variants.length then do return some (← differences variants) else .ok none)
      return ⟨((instances.head?).map (·.info.header.name)).getD "<none>", variants, instances, own⟩ := by
  simp only [compareAll, if_bind, bind_assoc, pure_bind, ok_bind, gt_iff_lt]

theorem mapM_codeNames_eq_ok {instances : List Fingerprint} {named : List (Fingerprint × CodeNames)}
    (h : (instances.mapM fun f => do return (f, ← codeNames f)) = .ok named) :
    named.map Prod.fst = instances ∧ ∀ e ∈ named, codeNames e.1 = .ok e.2 := by
  induction mapM_eq_ok_iff.mp h with
  | nil => simp
  | cons hfirst hrest ih =>
    obtain ⟨names, hnames, hentry⟩ := bind_eq_ok.mp hfirst
    obtain rfl := pure_eq_ok.mp hentry
    obtain ⟨hmap, hall⟩ := ih (mapM_eq_ok_iff.mpr hrest)
    exact ⟨by rw [map_cons, hmap], forall_mem_cons.mpr ⟨hnames, hall⟩⟩

theorem grouped_of_compareAll (h : compareAll found = .ok c)
    (hplain : ∀ f ∈ c.instances, f.IsPlain) : c.instances.length = found.length ∧ c.Grouped := by
  simp only [compareAll_eq, bind_eq_ok, pure_eq_ok] at h
  obtain ⟨instances, hinstances, named, hnamed, own, -, rfl⟩ := h
  obtain ⟨rfl, hnames⟩ := mapM_codeNames_eq_ok hnamed
  obtain ⟨hsub, hcovered, hapart⟩ := representatives_spec fun e he => hplain e.1 (mem_map_of_mem he)
  refine ⟨(mapM_eq_ok_iff.mp hinstances).length_eq.symm, ⟨fun v hv => map_subset _ hsub.subset hv,
    forall_mem_map.mpr fun e he => ?_, pairwise_map.mpr ?_⟩⟩
  · obtain ⟨first, hfirst, hkey⟩ := hcovered e he
    obtain ⟨hshape, hcode⟩ := Prod.mk.inj hkey
    refine ⟨first.1, mem_map_of_mem hfirst, hshape.symm, ?_⟩
    rw [hnames e he, hnames first (hsub.subset hfirst), hcode]
  · refine hapart.imp_of_mem fun {a b} ha hb hne ⟨hshape, hcode⟩ => hne ?_
    rw [hnames a (hsub.subset ha), hnames b (hsub.subset hb)] at hcode
    exact Prod.ext hshape (Except.ok.inj hcode)

/-- Items that are all given a number are counted once, each under its number. -/
theorem sum_length_filter {α : Type} {items : List α} {number : α → Option Nat} {n : Nat}
    (h : ∀ a ∈ items, ∃ i < n, number a = some i) :
    ∑ i ∈ Finset.range n, (items.filter fun a => number a == some i).length = items.length := by
  induction items with
  | nil => simp
  | cons a rest ih =>
    obtain ⟨⟨i, hi, ha⟩, hrest⟩ := forall_mem_cons.mp h
    have hstep : ∀ j, ((a :: rest).filter fun b => number b == some j).length =
        (if i = j then 1 else 0) + (rest.filter fun b => number b == some j).length := by
      intro j
      rw [filter_cons, ha]
      by_cases hij : i = j <;> simp [hij, Nat.add_comm]
    simp only [hstep, Finset.sum_add_distrib, Finset.sum_ite_eq, Finset.mem_range, hi, if_true,
      ih hrest, length_cons, Nat.add_comm]

namespace Comparison

variable {i : Nat} {variant f : Fingerprint}

/-- An instance is shown under the first variant that has its shape. -/
theorem mem_shownUnder (hi : c.variants[i]? = some variant) :
    f ∈ c.shownUnder i ↔ f ∈ c.instances ∧ f.sameShape variant = true ∧
      ∀ j < i, ∀ other, c.variants[j]? = some other → f.sameShape other = false := by
  obtain ⟨hlt, rfl⟩ := List.getElem?_eq_some_iff.mp hi
  rw [shownUnder, mem_filter, beq_iff_eq, variantOf, List.findIdx?_eq_some_iff_getElem]
  refine and_congr_right fun _ => ⟨fun ⟨_, hshape, hbefore⟩ => ⟨hshape, fun j hj other hother => ?_⟩,
    fun ⟨hshape, hbefore⟩ => ⟨hlt, hshape, fun j hj => ?_⟩⟩
  · obtain ⟨_, rfl⟩ := List.getElem?_eq_some_iff.mp hother
    exact Bool.eq_false_of_not_eq_true (hbefore j hj)
  · rw [hbefore j hj _ (List.getElem?_eq_getElem _)]
    exact Bool.false_ne_true

variable (hplain : ∀ f ∈ c.instances, f.IsPlain) (hc : c.Grouped)

include hplain hc

theorem mem_shownUnder_iff_shape (hi : c.variants[i]? = some variant) (hf : f ∈ c.instances) :
    f ∈ c.shownUnder i ↔ f.shape = variant.shape ∧
      ∀ j < i, ∀ other, c.variants[j]? = some other → other.shape ≠ variant.shape := by
  have hsame : ∀ {j : Nat} {other : Fingerprint}, c.variants[j]? = some other →
      (f.sameShape other = true ↔ f.shape = other.shape) := fun hother =>
    Fingerprint.sameShape_iff (hplain f hf) (hplain _ (hc.subset _ (mem_of_getElem? hother)))
  rw [mem_shownUnder hi, and_iff_right hf, hsame hi]
  refine and_congr_right fun hshape => forall₂_congr fun j _ => forall₂_congr fun other hother => ?_
  rw [← Bool.not_eq_true, hsame hother, hshape, ne_comm]

/-- A variant has all instances of its group, and no others, if no variant shares its shape. -/
theorem shownUnder_is_group_iff (hi : c.variants[i]? = some variant) :
    (∀ f ∈ c.instances, f ∈ c.shownUnder i ↔
        f.shape = variant.shape ∧ codeNames f = codeNames variant) ↔
      ∀ j other, c.variants[j]? = some other → j ≠ i → other.shape ≠ variant.shape := by
  constructor
  · intro hgroup j other hj hne hshape
    have hvariant := hc.subset variant (mem_of_getElem? hi)
    have hother := hc.subset other (mem_of_getElem? hj)
    -- the variant is shown at its own place, so an instance of its shape is shown there too
    have hown := (hgroup variant hvariant).mpr ⟨rfl, rfl⟩
    obtain ⟨-, hbefore⟩ := (mem_shownUnder_iff_shape hplain hc hi hvariant).mp hown
    have hshown := (mem_shownUnder_iff_shape hplain hc hi hother).mpr ⟨hshape, hbefore⟩
    have hsame := (hgroup other hother).mp hshown
    obtain ⟨hlt, rfl⟩ := List.getElem?_eq_some_iff.mp hi
    obtain ⟨hlt', rfl⟩ := List.getElem?_eq_some_iff.mp hj
    have hapart := pairwise_iff_getElem.mp hc.apart
    rcases Nat.lt_or_gt_of_ne hne with hbefore | hafter
    · exact hapart j i hlt' hlt hbefore hsame
    · exact hapart i j hlt hlt' hafter ⟨hsame.1.symm, hsame.2.symm⟩
  · intro halone f hf
    rw [mem_shownUnder_iff_shape hplain hc hi hf]
    refine and_congr_right fun hshape => ⟨fun _ => ?_,
      fun _ j hj other hother => halone j other hother (Nat.ne_of_lt hj)⟩
    obtain ⟨first, hfirst, hfirstShape, hcode⟩ := hc.covered f hf
    obtain ⟨j, hj⟩ := List.getElem?_of_mem hfirst
    by_cases hji : j = i
    · subst hji
      exact Option.some.inj (hj.symm.trans hi) ▸ hcode
    · exact absurd (hfirstShape.symm.trans hshape) (halone j first hj hji)

/-- A variant is left empty if an earlier one has its shape. -/
theorem shownUnder_eq_nil_iff (hi : c.variants[i]? = some variant) :
    c.shownUnder i = [] ↔
      ∃ j < i, ∃ other, c.variants[j]? = some other ∧ other.shape = variant.shape := by
  have hvariant := hc.subset variant (mem_of_getElem? hi)
  constructor
  · intro hnil
    by_contra hnone
    have hshown : variant ∈ c.shownUnder i :=
      (mem_shownUnder_iff_shape hplain hc hi hvariant).mpr
        ⟨rfl, fun j hj other hother heq => hnone ⟨j, hj, other, hother, heq⟩⟩
    simp [hnil] at hshown
  · rintro ⟨j, hj, other, hother, hshape⟩
    rw [eq_nil_iff_forall_not_mem]
    intro f hshown
    have hf : f ∈ c.instances := mem_of_mem_filter hshown
    exact ((mem_shownUnder_iff_shape hplain hc hi hf).mp hshown).2 j hj other hother hshape

theorem sum_shownUnder :
    ∑ i ∈ Finset.range c.variants.length, (c.shownUnder i).length = c.instances.length := by
  refine sum_length_filter fun f hf => ?_
  obtain ⟨first, hfirst, hshape, -⟩ := hc.covered f hf
  have hfound : (variantOf c.variants f).isSome = true := by
    rw [variantOf, List.findIdx?_isSome, any_eq_true]
    exact ⟨first, hfirst, (Fingerprint.sameShape_iff (hplain f hf)
      (hplain first (hc.subset first hfirst))).mpr hshape⟩
  obtain ⟨i, hi⟩ := Option.isSome_iff_exists.mp hfound
  obtain ⟨hlt, -⟩ := List.findIdx?_eq_some_iff_getElem.mp hi
  exact ⟨i, hlt, hi⟩

end Comparison

theorem variantLines_eq_ok (number : Nat) (variant : Fingerprint) {members : List Fingerprint}
    (h : ∀ f ∈ members, ∃ text, f.info.dateCode.shown = .ok text) :
    ∃ lines, variantLines number variant members = .ok lines := by
  have hlocations : ∃ locations, members.mapM locationLine = .ok locations := by
    induction members with
    | nil => exact ⟨[], rfl⟩
    | cons f rest ih =>
      obtain ⟨⟨text, htext⟩, hrest⟩ := forall_mem_cons.mp h
      obtain ⟨locations, hlocations⟩ := ih hrest
      rw [mapM_cons, hlocations, locationLine, htext]
      exact ⟨_, rfl⟩
  obtain ⟨locations, hlocations⟩ := hlocations
  rw [variantLines, hlocations]
  exact ⟨_, rfl⟩

/-- Under a variant stand the instances of its shape that no earlier variant has the shape of. These
are the instances of its own group if no other variant has its shape; if an earlier one has it, none
are left. In all, each instance is shown once. -/
theorem summary_shows_shapes (hc : compareAll found = .ok c)
    (hplain : ∀ f ∈ c.instances, f.IsPlain) (hmany : 2 ≤ c.variants.length) :
    (∃ blocks, c.variants.zipIdx.mapM (fun (variant, i) =>
          variantLines (i + 1) variant (c.shownUnder i)) = .ok blocks ∧
        c.summary = .ok ("\n".intercalate (c.opening ++ blocks.flatten ++
          (c.differences.map differenceLines).getD []))) ∧
      (∑ i ∈ Finset.range c.variants.length, (c.shownUnder i).length = found.length) ∧
      ∀ i variant, c.variants[i]? = some variant →
        (∀ f, f ∈ c.shownUnder i ↔ f ∈ c.instances ∧ f.sameShape variant = true ∧
          ∀ j < i, ∀ other, c.variants[j]? = some other → f.sameShape other = false) ∧
        ((∀ f ∈ c.instances, f ∈ c.shownUnder i ↔
            f.shape = variant.shape ∧ codeNames f = codeNames variant) ↔
          ∀ j other, c.variants[j]? = some other → j ≠ i → other.shape ≠ variant.shape) ∧
        (c.shownUnder i = [] ↔
          ∃ j < i, ∃ other, c.variants[j]? = some other ∧ other.shape = variant.shape) := by
  obtain ⟨hlength, hgrouped⟩ := grouped_of_compareAll hc hplain
  refine ⟨?_, hlength ▸ Comparison.sum_shownUnder hplain hgrouped, fun i variant hi =>
    ⟨fun f => Comparison.mem_shownUnder hi, Comparison.shownUnder_is_group_iff hplain hgrouped hi,
      Comparison.shownUnder_eq_nil_iff hplain hgrouped hi⟩⟩
  have hlines : ∀ entry : Fingerprint × Nat, ∃ block,
      variantLines (entry.2 + 1) entry.1 (c.shownUnder entry.2) = .ok block := fun entry =>
    variantLines_eq_ok _ _ fun f hf => (hplain f (mem_of_mem_filter hf)).date
  choose block hblock using hlines
  have hblocks : c.variants.zipIdx.mapM (fun (variant, i) =>
      variantLines (i + 1) variant (c.shownUnder i)) = .ok (c.variants.zipIdx.map block) :=
    mapM_eq_ok_iff.mpr (forall₂_map_right_iff.mpr (forall₂_same.mpr fun e _ => hblock e))
  have hone : (c.variants.length == 1) = false := by
    rw [beq_eq_false_iff_ne]
    omega
  have hsome : c.instances.isEmpty = false := by
    obtain ⟨first, hfirst⟩ := exists_mem_of_length_pos (Nat.lt_of_lt_of_le Nat.zero_lt_two hmany)
    exact isEmpty_eq_false_iff_exists_mem.mpr ⟨first, hgrouped.subset first hfirst⟩
  refine ⟨_, hblocks, ?_⟩
  simp only [Comparison.shownUnder] at hblocks
  simp only [Comparison.summary, hsome, hone, hblocks, Bool.false_eq_true, if_false]
  simp only [ok_bind, pure_bind, Comparison.opening, append_assoc]
  rfl

/-! Two regulators that differ in the name of their block of equations only. Each has a parameter,
which is connected to a variable around it. -/

def blockOf (block : String) : Value :=
  .element .equation [.text block, .null, .null, .list []]

def wantedSource : Value :=
  .dict [.text "var_name"] [.text "Wanted"]

def setpointTarget : Value :=
  .dict [.text "var_name"] [.text "Setpoint"]

def regulator (block : String) : Value :=
  .element .singleModule [.element .moduleHeader [.text "Regulator"], .null, .int 0,
    .list [.element .variable [.text "Setpoint", .simpleType .real, .bool false, .bool false,
      .bool false, .bool false, .bool false, .null, .null, .bool false, .bool false, .list []]],
    .list [], .list [], .element .moduleCode [.list [], .list [blockOf block]],
    .list [.element .parameterMapping [setpointTarget, .text "variable_name", .bool false,
      .bool false, wantedSource, .null]]]

def regulators : List (Path × Value) :=
  [(["Plant", "R1"], regulator "Control"), (["Plant", "R2"], regulator "Alarm")]

def setpoint : Variable :=
  ⟨0, "Setpoint", .simple .real, .bool false, .bool false, .bool false, .bool false, .bool false,
    .null, .null⟩

def wantedMapping : Mapping :=
  ⟨setpointTarget, .text "variable_name", .bool false, .bool false, wantedSource, .null⟩

def regulatorPrint (unit block : String) : Fingerprint where
  path := ["Plant", unit]
  info := ⟨⟨"Regulator", .null, .null, .null, .null, .null, .null, .null, .null⟩, .null, .int 0,
    [setpoint], [], .element .moduleCode [.list [], .list [blockOf block]], [wantedMapping], []⟩
  submodules := []
  sequences := []
  equations := [blockOf block]
  parameters := [[.text none (plainName "Setpoint"), .text none "real", .number 0 0, .number 0 0,
    .number 0 0, .number 0 0, .number 0 0, .text none "None"]]
  locals := []
  tree := []
  mappings := [[.text none (plainName "Setpoint"), .text none "variable_name", .number 0 0,
    .number 0 0, .text none (plainName "Wanted"), .text none "None"]]

theorem sort_singleton (profile : Profile) : Profile.sort [profile] = .ok [profile] := by
  simp [Profile.sort, Profile.areOrdered]

theorem regulator_print (unit block : String) :
    Fingerprint.ofValue ["Plant", unit] (regulator block) = .ok (regulatorPrint unit block) := by
  have hmodule : (regulator block).toModule.run {} =
      .ok (.single (regulatorPrint unit block).info [], ⟨#[{}]⟩) := by
    simp only [regulator, Value.toModule, Value.toModules, Value.toModulesOf]
    rfl
  have hparameters : variableProfiles [setpoint] = .ok (regulatorPrint unit block).parameters :=
    sort_singleton _
  have hlocals : variableProfiles [] = .ok [] := by
    simp [variableProfiles, Profile.ofValues, Profile.sort, Profile.areOrdered]
  have hmappings : mappingProfiles [wantedMapping] = .ok (regulatorPrint unit block).mappings :=
    sort_singleton _
  have htree : treeBelow treeLimit 0 [] = .ok [] := by
    simp [treeBelow, bounded, treeLimit, treesOf, TreeNode.sortedSet]
  simp only [Fingerprint.ofValue, hmodule, bind, Except.bind]
  simp only [Fingerprint.create, regulatorPrint, hparameters, hlocals, hmappings, htree]
  rfl

theorem regulator_codeNames (unit block : String) :
    codeNames (regulatorPrint unit block) = .ok ⟨[], [plainName block]⟩ := by
  have hname : codeName (blockOf block) = .ok block := rfl
  simp only [codeNames, regulatorPrint, mapM_cons, mapM_nil, hname, pure_bind, ok_bind,
    map_cons, map_nil, Text.sorted, mergeSort_nil, mergeSort_singleton]
  rfl

theorem regulators_compared : ∃ own, compareAll regulators = .ok ⟨"Regulator",
    [regulatorPrint "R1" "Control", regulatorPrint "R2" "Alarm"],
    [regulatorPrint "R1" "Control", regulatorPrint "R2" "Alarm"], some own⟩ := by
  obtain ⟨own, hown⟩ : ∃ own, differences [regulatorPrint "R1" "Control",
      regulatorPrint "R2" "Alarm"] = .ok own := ⟨_, rfl⟩
  have hnames : plainName "Control" ≠ plainName "Alarm" := by decide
  refine ⟨own, ?_⟩
  simp only [compareAll_eq, regulators, mapM_cons, mapM_nil, regulator_print, ok_bind,
    pure_bind, regulator_codeNames]
  simp [representatives, hnames, hown]
  rfl

theorem alarm_shown_under_control : ∃ c, compareAll regulators = .ok c ∧
    c.variants = c.instances ∧ c.variants.length = 2 ∧ c.shownUnder 0 = c.instances ∧
    c.shownUnder 1 = [] := by
  obtain ⟨own, hown⟩ := regulators_compared
  exact ⟨_, hown, rfl, rfl, rfl, rfl⟩

theorem regulators_shown : ∃ c, compareAll regulators = .ok c ∧
    ∑ i ∈ Finset.range c.variants.length, (c.shownUnder i).length = 2 := by
  obtain ⟨own, hown⟩ := regulators_compared
  refine ⟨_, hown, (summary_shows_shapes hown ?_ (by simp)).2.1⟩
  simp only [forall_mem_cons]
  exact ⟨⟨by simp [regulatorPrint, isPlain], _, rfl⟩, ⟨by simp [regulatorPrint, isPlain], _, rfl⟩,
    by simp⟩

end SattLine.Compare
