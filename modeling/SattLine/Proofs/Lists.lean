import Mathlib.Data.List.Induction
import Mathlib.Data.List.Nodup

/-!
Lists without duplicates and lists of keys with values.
-/

namespace SattLine

section EraseDups

variable {α : Type*} [BEq α] [LawfulBEq α]

/-- Of several equal items the first is kept, so the items stay in the order in which they first
occur. -/
theorem eraseDups_pairwise_idxOf (items : List α) :
    items.eraseDups.Pairwise fun a b => items.idxOf a < items.idxOf b := by
  induction items using List.reverseRecOn with
  | nil => exact .nil
  | append_singleton items item ih =>
    have hsame : ∀ a ∈ items.eraseDups, (items ++ [item]).idxOf a = items.idxOf a :=
      fun a ha => List.idxOf_append_of_mem (List.mem_eraseDups.mp ha)
    have hold : items.eraseDups.Pairwise fun a b =>
        (items ++ [item]).idxOf a < (items ++ [item]).idxOf b :=
      ih.imp_of_mem fun ha hb h => by rwa [hsame _ ha, hsame _ hb]
    rw [List.eraseDups_append]
    by_cases hmem : item ∈ items
    · simpa [List.removeAll, hmem] using hold
    · have hnew : ([item].removeAll items).eraseDups = [item] := by
        simp [List.removeAll, hmem, List.eraseDups_cons]
      rw [hnew, List.pairwise_append]
      refine ⟨hold, List.pairwise_singleton _ _, fun a ha b hb => ?_⟩
      cases List.mem_singleton.mp hb
      rw [hsame a ha, List.idxOf_append_of_notMem hmem]
      exact Nat.lt_add_right _ (List.idxOf_lt_length_of_mem (List.mem_eraseDups.mp ha))

theorem nodup_eraseDups (items : List α) : items.eraseDups.Nodup := by
  refine List.nodup_iff_pairwise_ne.mpr ((eraseDups_pairwise_idxOf items).imp ?_)
  rintro a _ h rfl
  exact Nat.lt_irrefl _ h

end EraseDups

section Lookup

variable {α β : Type*} [BEq α] [LawfulBEq α] {key : α} {value : β} {entries : List (α × β)}

theorem mem_of_lookup (h : entries.lookup key = some value) : (key, value) ∈ entries := by
  obtain ⟨before, after, rfl, -⟩ := List.lookup_eq_some_iff.mp h
  simp

theorem lookup_of_mem (h : (key, value) ∈ entries) : ∃ other, entries.lookup key = some other := by
  rw [← Option.isSome_iff_exists, List.lookup_isSome_iff]
  exact ⟨(key, value), h, by simp⟩

/-- Where no key occurs twice, a value is looked up by the only entry of its key. -/
theorem lookup_eq_some_iff_mem (hnodup : (entries.map Prod.fst).Nodup) :
    entries.lookup key = some value ↔ (key, value) ∈ entries := by
  refine ⟨mem_of_lookup, fun hmem => ?_⟩
  obtain ⟨other, hother⟩ := lookup_of_mem hmem
  cases List.inj_on_of_nodup_map hnodup (mem_of_lookup hother) hmem rfl
  exact hother

end Lookup

/-- Where no key occurs twice, an item is found by its own key. -/
theorem find?_key_eq_some_iff {α κ : Type*} [BEq κ] [LawfulBEq κ] {key : α → κ} {items : List α}
    (hnodup : (items.map key).Nodup) {k : κ} {a : α} :
    items.find? (key · == k) = some a ↔ a ∈ items ∧ key a = k := by
  constructor
  · intro h
    exact ⟨List.mem_of_find?_eq_some h, by simpa using List.find?_some h⟩
  · rintro ⟨ha, rfl⟩
    have hsome : (items.find? (key · == key a)).isSome := List.find?_isSome.mpr ⟨a, ha, by simp⟩
    obtain ⟨found, hfound⟩ := Option.isSome_iff_exists.mp hsome
    have hkey : key found = key a := by simpa using List.find?_some hfound
    rw [hfound, List.inj_on_of_nodup_map hnodup (List.mem_of_find?_eq_some hfound) ha hkey]

end SattLine
