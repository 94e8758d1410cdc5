import Mathlib.Data.List.Forall2

/-!
Steps that may fail, one after the other and along a list.
-/

namespace SattLine

variable {ε α β : Type}

theorem ok_bind (a : α) (f : α → Except ε β) : (Except.ok a >>= f) = f a :=
  rfl

theorem if_bind {p : Prop} [Decidable p] (x y : Except ε α) (f : α → Except ε β) :
    ((if p then x else y) >>= f) = if p then x >>= f else y >>= f := by
  split <;> rfl

variable {f : α → Except ε β} {b : β} {xs : List α} {ys : List β}

theorem bind_eq_ok {x : Except ε α} : (x >>= f) = .ok b ↔ ∃ a, x = .ok a ∧ f a = .ok b := by
  cases x with
  | error e => simp [bind, Except.bind]
  | ok a => simp [ok_bind]

theorem pure_eq_ok {a b : α} : (pure a : Except ε α) = .ok b ↔ a = b := by
  simp [pure, Except.pure]

/-- Going through a list succeeds if each of its items does, and gives what they give. -/
theorem mapM_eq_ok_iff : xs.mapM f = .ok ys ↔ List.Forall₂ (fun x y => f x = .ok y) xs ys := by
  induction xs generalizing ys with
  | nil => rw [List.mapM_nil, pure_eq_ok, List.forall₂_nil_left_iff, eq_comm]
  | cons x rest ih =>
    simp only [List.mapM_cons, bind_eq_ok, pure_eq_ok, ih, List.forall₂_cons_left_iff]
    constructor
    · rintro ⟨y, hy, others, hothers, rfl⟩
      exact ⟨y, others, hy, hothers, rfl⟩
    · rintro ⟨y, others, hy, hothers, rfl⟩
      exact ⟨y, hy, others, hothers, rfl⟩

/-- Each item of two lists that are related item by item has a partner. -/
theorem exists_of_forall₂ {R : α → β → Prop} (h : List.Forall₂ R xs ys) :
    (∀ x ∈ xs, ∃ y ∈ ys, R x y) ∧ ∀ y ∈ ys, ∃ x ∈ xs, R x y := by
  induction h with
  | nil => simp
  | cons hpair _ ih =>
    refine ⟨List.forall_mem_cons.mpr ⟨⟨_, List.mem_cons_self, hpair⟩, fun x hx => ?_⟩,
      List.forall_mem_cons.mpr ⟨⟨_, List.mem_cons_self, hpair⟩, fun y hy => ?_⟩⟩
    · obtain ⟨y, hy, hR⟩ := ih.1 x hx
      exact ⟨y, List.mem_cons_of_mem _ hy, hR⟩
    · obtain ⟨x, hx, hR⟩ := ih.2 y hy
      exact ⟨x, List.mem_cons_of_mem _ hx, hR⟩

variable {σ : Type} {s s' : σ}

theorem ended_iff {a b : α} : ((.ok a, s) : Except ε α × σ) = (.ok b, s') ↔ b = a ∧ s' = s := by
  simp only [Prod.mk.injEq, Except.ok.injEq, eq_comm]

/-- Of steps that also change a state, the second starts where the first ends. -/
theorem bind_ended_iff {x : ExceptT ε (StateM σ) α} {f : α → ExceptT ε (StateM σ) β} :
    (x >>= f).run.run s = (.ok b, s') ↔
      ∃ a t, x.run.run s = (.ok a, t) ∧ (f a).run.run t = (.ok b, s') := by
  have hrun : (x >>= f).run.run s =
      match x.run.run s with
      | (.ok a, t) => (f a).run.run t
      | (.error e, t) => (.error e, t) := by
    rw [ExceptT.run_bind, StateT.run_bind]
    rcases x.run.run s with ⟨e | a, t⟩ <;> rfl
  rw [hrun]
  constructor
  · intro h
    rcases hx : x.run.run s with ⟨e | a, t⟩
    · rw [hx] at h
      cases h
    · rw [hx] at h
      exact ⟨a, t, rfl, h⟩
  · rintro ⟨a, t, hx, h⟩
    rw [hx]
    exact h

end SattLine
