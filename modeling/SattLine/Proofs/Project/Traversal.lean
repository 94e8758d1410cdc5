import Mathlib.Data.List.Nodup
import Mathlib.Data.List.Perm.Subperm
import Mathlib.Logic.Relation
import SattLine.Project.Loader

/-!
The order in which the names of a project are met. A name is gone into unless it is finished or
still open, after which the names that it lists are met in their order, and then it is finished.
The traversal is a relation, so that it has no bound of its own. It comes to an end when the names
that can be met are finitely many up to letter case. Main statements: each name is finished once,
what a finished name lists is known, and without cycles it is finished earlier.
-/

namespace SattLine.Project

open Text (lower)
open List

namespace History

/-- Whether a name in small letters is finished or open. -/
def Knows (h : History) (key : String) : Prop :=
  key ∈ h.done ∨ key ∈ h.pending

def opened (h : History) (key : String) : History :=
  { h with pending := key :: h.pending }

def closed (h : History) (key : String) : History :=
  { done := key :: h.done, pending := h.pending.erase key }

end History

/-- `Traverses next h names order h'`: meeting the names one after the other, from history `h`,
finishes the names in `order` and ends with `h'`. The names that a name lists are `next name`. -/
inductive Traverses (next : String → List String) :
    History → List String → List String → History → Prop
  | nil {h} : Traverses next h [] [] h
  | known {h name rest order h'} (hknown : h.Knows (lower name))
      (hrest : Traverses next h rest order h') : Traverses next h (name :: rest) order h'
  | fresh {h name rest inner t order h'} (hfresh : ¬ h.Knows (lower name))
      (hinner : Traverses next (h.opened (lower name)) (next name) inner t)
      (hrest : Traverses next (t.closed (lower name)) rest order h') :
      Traverses next h (name :: rest) (inner ++ name :: order) h'

namespace Traverses

variable {next : String → List String} {h h' : History} {names order : List String}

theorem pending_eq (ht : Traverses next h names order h') : h'.pending = h.pending := by
  induction ht with
  | nil => rfl
  | known _ _ ih => exact ih
  | fresh _ _ _ ihinner ihrest =>
    rw [ihrest, History.closed, ihinner, History.opened, erase_cons_head]

theorem done_eq (ht : Traverses next h names order h') :
    h'.done = (order.map lower).reverse ++ h.done := by
  induction ht with
  | nil => simp
  | known _ _ ih => exact ih
  | fresh _ _ _ ihinner ihrest =>
    rw [ihrest, History.closed, ihinner]
    simp [History.opened]

/-- The history after a name is gone into: the names below it and the name itself are finished. -/
theorem closed_knows_iff {key : String} {t : History}
    (ht : Traverses next (h.opened key) names order t) (other : String) :
    (t.closed key).Knows other ↔ other ∈ order.map lower ∨ other = key ∨ h.Knows other := by
  simp only [History.Knows, History.closed, ht.done_eq, ht.pending_eq, History.opened,
    erase_cons_head, mem_cons, mem_append, mem_reverse]
  tauto

/-- A traversal of a single new name finishes that name last. -/
theorem single {name : String} (ht : Traverses next h [name] order h')
    (hfresh : ¬ h.Knows (lower name)) : ∃ inner, order = inner ++ [name] := by
  cases ht with
  | known hknown _ => exact absurd hknown hfresh
  | fresh _ _ hrest =>
    cases hrest
    exact ⟨_, rfl⟩

variable (ht : Traverses next h names order h')

include ht

theorem knows_iff (key : String) : h'.Knows key ↔ key ∈ order.map lower ∨ h.Knows key := by
  simp only [History.Knows, ht.done_eq, ht.pending_eq, mem_append, mem_reverse,
    or_assoc]

theorem knows_of_knows {key : String} (hkey : h.Knows key) : h'.Knows key :=
  (ht.knows_iff key).mpr (.inr hkey)

/-- A name is finished only if it was not known before. -/
theorem not_knows : ∀ name ∈ order, ¬ h.Knows (lower name) := by
  induction ht with
  | nil => simp
  | known _ _ ih => exact ih
  | fresh hfresh hinner _ ihinner ihrest =>
    intro other hother hknows
    rcases mem_append.mp hother with hother | hother
    · apply ihinner other hother
      exact hknows.imp id (mem_cons_of_mem _)
    · rcases mem_cons.mp hother with rfl | hother
      · exact hfresh hknows
      · exact ihrest other hother
          ((hinner.closed_knows_iff _).mpr (.inr (.inr hknows)))

/-- Each name is finished once, whatever its letter case. -/
theorem nodup : (order.map lower).Nodup := by
  induction ht with
  | nil => simp
  | known _ _ ih => exact ih
  | @fresh h name rest inner t order h' hfresh hinner hrest ihinner ihrest =>
    have hlater : ∀ other ∈ order, ¬ (t.closed (lower name)).Knows (lower other) :=
      hrest.not_knows
    have hname : lower name ∉ order.map lower := by
      intro hmem
      obtain ⟨other, hother, heq⟩ := mem_map.mp hmem
      exact hlater other hother ((hinner.closed_knows_iff _).mpr (.inr (.inl heq)))
    have hbelow : ∀ key ∈ inner.map lower, key ∉ lower name :: order.map lower := by
      intro key hkey hmem
      rcases mem_cons.mp hmem with rfl | hmem
      · obtain ⟨other, hother, heq⟩ := mem_map.mp hkey
        apply hinner.not_knows other hother
        rw [heq]
        exact .inr mem_cons_self
      · obtain ⟨other, hother, rfl⟩ := mem_map.mp hmem
        exact hlater other hother ((hinner.closed_knows_iff _).mpr (.inl hkey))
    rw [map_append, map_cons]
    exact nodup_append'.mpr ⟨ihinner, nodup_cons.mpr ⟨hname, ihrest⟩, hbelow⟩

theorem knows_met : ∀ name ∈ names, h'.Knows (lower name) := by
  induction ht with
  | nil => simp
  | known hknown hrest ih =>
    intro other hother
    rcases mem_cons.mp hother with rfl | hother
    · exact hrest.knows_of_knows hknown
    · exact ih other hother
  | fresh _ hinner hrest _ ihrest =>
    intro other hother
    rcases mem_cons.mp hother with rfl | hother
    · exact hrest.knows_of_knows ((hinner.closed_knows_iff _).mpr (.inr (.inl rfl)))
    · exact ihrest other hother

theorem knows_listed : ∀ name ∈ order, ∀ other ∈ next name, h'.Knows (lower other) := by
  induction ht with
  | nil => simp
  | known _ _ ih => exact ih
  | @fresh h name rest inner t order h' _ hinner hrest ihinner ihrest =>
    -- What is known when the inner names are through stays known when `name` is finished.
    have hkept : ∀ key, t.Knows key → h'.Knows key := by
      intro key hkey
      apply hrest.knows_of_knows
      rw [hinner.closed_knows_iff]
      rcases (hinner.knows_iff key).mp hkey with hkey | hkey | hkey
      · exact .inl hkey
      · exact .inr (.inr (.inl hkey))
      · exact .inr ((mem_cons.mp hkey).imp id .inr)
    intro finished hfinished other hother
    rcases mem_append.mp hfinished with hfinished | hfinished
    · exact hkept _ (ihinner finished hfinished other hother)
    · rcases mem_cons.mp hfinished with rfl | hfinished
      · exact hkept _ (hinner.knows_met other hother)
      · exact ihrest finished hfinished other hother

/-- Every finished name is reached from one of the names that were met, through finished names. -/
theorem reached : ∀ name ∈ order, ∃ first ∈ names,
      Relation.ReflTransGen (fun outer inner => outer ∈ order ∧ inner ∈ next outer) first name := by
  induction ht with
  | nil => simp
  | known _ _ ih =>
    intro name hname
    obtain ⟨first, hfirst, hpath⟩ := ih name hname
    exact ⟨first, mem_cons_of_mem _ hfirst, hpath⟩
  | @fresh h name rest inner t order h' _ _ _ ihinner ihrest =>
    intro finished hfinished
    rcases mem_append.mp hfinished with hfinished | hfinished
    · obtain ⟨first, hfirst, hpath⟩ := ihinner finished hfinished
      have hstep : ∀ outer other, outer ∈ inner ∧ other ∈ next outer →
          outer ∈ inner ++ name :: order ∧ other ∈ next outer :=
        fun outer _ hlisted => ⟨mem_append_left _ hlisted.1, hlisted.2⟩
      exact ⟨name, mem_cons_self, .head ⟨by simp, hfirst⟩ (.mono hstep _ _ hpath)⟩
    · rcases mem_cons.mp hfinished with rfl | hfinished
      · exact ⟨finished, mem_cons_self, .refl⟩
      · obtain ⟨first, hfirst, hpath⟩ := ihrest finished hfinished
        have hstep : ∀ outer other, outer ∈ order ∧ other ∈ next outer →
            outer ∈ inner ++ name :: order ∧ other ∈ next outer := by
          rintro outer _ ⟨houter, hlisted⟩
          exact ⟨mem_append_right _ (mem_cons_of_mem _ houter), hlisted⟩
        exact ⟨first, mem_cons_of_mem _ hfirst, .mono hstep _ _ hpath⟩

theorem unique {other : List String} {t' : History}
    (hother : Traverses next h names other t') : other = order ∧ t' = h' := by
  induction ht generalizing other t' with
  | nil =>
    cases hother
    exact ⟨rfl, rfl⟩
  | known hknown _ ih =>
    cases hother with
    | known _ hrest => exact ih hrest
    | fresh hfresh _ _ => exact absurd hknown hfresh
  | fresh hfresh _ _ ihinner ihrest =>
    cases hother with
    | known hknown _ => exact absurd hknown hfresh
    | fresh _ hinner hrest =>
      obtain ⟨rfl, rfl⟩ := ihinner hinner
      obtain ⟨rfl, rfl⟩ := ihrest hrest
      exact ⟨rfl, rfl⟩

end Traverses

/-- One name, in small letters, is listed by another that is among the given ones. -/
def ListedAmong (next : String → List String) (names : List String) (outer inner : String) : Prop :=
  ∃ name ∈ names, lower name = outer ∧ ∃ other ∈ next name, lower other = inner

/-- No name leads back to itself along the lists of the given names. -/
def AcyclicAmong (next : String → List String) (names : List String) : Prop :=
  ∀ key, ¬ Relation.TransGen (ListedAmong next names) key key

namespace Traverses

variable {next : String → List String} {h h' : History} {names order : List String}

theorem closed_pending {key : String} {t : History}
    (ht : Traverses next (h.opened key) names order t) : (t.closed key).pending = h.pending := by
  rw [History.closed, ht.pending_eq, History.opened, erase_cons_head]

theorem closed_done {key : String} {t : History}
    (ht : Traverses next (h.opened key) names order t) :
    (t.closed key).done = key :: ((order.map lower).reverse ++ h.done) := by
  rw [History.closed, ht.done_eq, History.opened]

/-- Without cycles, what a finished name lists is finished before it. The open names lead to the
names that are met now; so a listed name that is still open would close a cycle. -/
theorem listed_before {all : List String} (hacyclic : AcyclicAmong next all)
    (ht : Traverses next h names order h') (hall : order ⊆ all)
    (hopen : ∀ key ∈ h.pending, ∀ name ∈ names,
      Relation.TransGen (ListedAmong next all) key (lower name)) :
    ∀ name ∈ order, ∀ other ∈ next name, lower other ∈ h.done ∨
      ∃ earlier, lower earlier = lower other ∧ [earlier, name].Sublist order := by
  induction ht with
  | nil => simp
  | known _ _ ih =>
    exact ih hall fun key hkey name hname => hopen key hkey name (mem_cons_of_mem _ hname)
  | @fresh h name rest inner t order h' _ hinner hrest ihinner ihrest =>
    have hname : name ∈ all := hall (by simp)
    have hbelow : ∀ key ∈ (h.opened (lower name)).pending, ∀ other ∈ next name,
        Relation.TransGen (ListedAmong next all) key (lower other) := by
      intro key hkey other hother
      have hstep : ListedAmong next all (lower name) (lower other) :=
        ⟨name, hname, rfl, other, hother, rfl⟩
      rcases mem_cons.mp hkey with rfl | hkey
      · exact .single hstep
      · exact (hopen key hkey name mem_cons_self).tail hstep
    intro finished hfinished other hother
    rcases mem_append.mp hfinished with hfinished | hfinished
    · have hearlier := ihinner (fun n hn => hall (mem_append_left _ hn)) hbelow finished
        hfinished other hother
      exact hearlier.imp id fun ⟨earlier, heq, hsub⟩ =>
        ⟨earlier, heq, hsub.trans (sublist_append_left _ _)⟩
    · rcases mem_cons.mp hfinished with rfl | hfinished
      · rcases hinner.knows_met other hother with hdone | hpending
        · rw [hinner.done_eq, mem_append, mem_reverse] at hdone
          rcases hdone with hdone | hdone
          · obtain ⟨earlier, hearlier, heq⟩ := mem_map.mp hdone
            refine .inr ⟨earlier, heq, ?_⟩
            exact (singleton_sublist.mpr hearlier).append
              (singleton_sublist.mpr mem_cons_self)
          · exact .inl hdone
        · rw [hinner.pending_eq] at hpending
          exact absurd (hbelow _ hpending other hother) (hacyclic _)
      · have hlater : ∀ key ∈ (t.closed (lower name)).pending, ∀ n ∈ rest,
            Relation.TransGen (ListedAmong next all) key (lower n) := by
          intro key hkey n hn
          rw [hinner.closed_pending] at hkey
          exact hopen key hkey n (mem_cons_of_mem _ hn)
        have hrest : order ⊆ all := fun n hn =>
          hall (mem_append_right _ (mem_cons_of_mem _ hn))
        have hbehind : ∀ earlier ∈ inner ++ [name],
            [earlier, finished].Sublist (inner ++ name :: order) := by
          intro earlier hearlier
          rw [append_cons]
          exact (singleton_sublist.mpr hearlier).append
            (singleton_sublist.mpr hfinished)
        rcases ihrest hrest hlater finished hfinished other hother with hdone | hearlier
        · rw [hinner.closed_done, mem_cons, mem_append, mem_reverse] at hdone
          rcases hdone with heq | hdone | hdone
          · exact .inr ⟨name, heq.symm, hbehind name (by simp)⟩
          · obtain ⟨earlier, hearlier, heq⟩ := mem_map.mp hdone
            exact .inr ⟨earlier, heq, hbehind earlier (mem_append_left _ hearlier)⟩
          · exact .inl hdone
        · obtain ⟨earlier, heq, hsub⟩ := hearlier
          exact .inr ⟨earlier, heq,
            (hsub.cons name).trans (sublist_append_right _ _)⟩

end Traverses

/-- The names that can still be opened are bounded by `depth`: all names that can be met are among
`keys`, in small letters, and so are the open ones. -/
structure Bounded (next : String → List String) (keys : List String) (h : History) (depth : Nat) :
    Prop where
  listed : ∀ name, ∀ other ∈ next name, lower other ∈ keys
  nodup : h.pending.Nodup
  subset : h.pending ⊆ keys
  length_le : keys.length ≤ h.pending.length + depth

namespace Bounded

variable {next : String → List String} {keys : List String} {h : History} {depth : Nat}

/-- When nothing more can be opened, every name is open. -/
theorem mem_pending (hb : Bounded next keys h 0) {key : String} (hkey : key ∈ keys) :
    key ∈ h.pending :=
  (subperm_of_subset hb.nodup hb.subset).perm_of_length_le (by simpa using hb.length_le) |>.mem_iff.mpr hkey

theorem opened (hb : Bounded next keys h (depth + 1)) {key : String} (hkey : key ∈ keys)
    (hfresh : ¬ h.Knows key) : Bounded next keys (h.opened key) depth where
  listed := hb.listed
  nodup := nodup_cons.mpr ⟨fun hmem => hfresh (.inr hmem), hb.nodup⟩
  subset := cons_subset.mpr ⟨hkey, hb.subset⟩
  length_le := by
    have hle := hb.length_le
    rw [History.opened, length_cons]
    omega

theorem of_pending_eq (hb : Bounded next keys h depth) {t : History}
    (hpending : t.pending = h.pending) : Bounded next keys t depth :=
  ⟨hb.listed, hpending ▸ hb.nodup, hpending ▸ hb.subset, hpending ▸ hb.length_le⟩

end Bounded

/-- Names that are finitely many up to letter case can be traversed. The induction is on the number
of names that can still be opened. -/
theorem exists_traverses {next : String → List String} {keys : List String} {depth : Nat} :
    ∀ {h : History} {names : List String}, Bounded next keys h depth →
      (∀ name ∈ names, lower name ∈ keys) → ∃ order h', Traverses next h names order h' := by
  induction depth with
  | zero =>
    intro h names hb hnames
    induction names with
    | nil => exact ⟨_, _, .nil⟩
    | cons name rest ih =>
      have hknown : h.Knows (lower name) :=
        .inr (hb.mem_pending (hnames name mem_cons_self))
      obtain ⟨order, h', ht⟩ := ih fun n hn => hnames n (mem_cons_of_mem _ hn)
      exact ⟨order, h', .known hknown ht⟩
  | succ depth ihdepth =>
    intro h names hb hnames
    induction names generalizing h with
    | nil => exact ⟨_, _, .nil⟩
    | cons name rest ih =>
      have hname := hnames name mem_cons_self
      have hrest : ∀ n ∈ rest, lower n ∈ keys :=
        fun n hn => hnames n (mem_cons_of_mem _ hn)
      by_cases hknown : h.Knows (lower name)
      · obtain ⟨order, h', ht⟩ := ih hb hrest
        exact ⟨order, h', .known hknown ht⟩
      · obtain ⟨inner, t, hinner⟩ := ihdepth (hb.opened hname hknown) (hb.listed name)
        obtain ⟨order, h', ht⟩ := ih (hb.of_pending_eq hinner.closed_pending) hrest
        exact ⟨_, h', .fresh hknown hinner ht⟩

end SattLine.Project
