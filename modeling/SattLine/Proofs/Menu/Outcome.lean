import SattLine.Menu.Screen

/-!
What a dialogue comes to, step by step.
-/

namespace SattLine.Menu

variable {W α β : Type} {s t : Settings} {w : W}

/-- How a dialogue ends, and the settings and the machine after it. -/
def outcome (d : Dialogue (StateM W) α) (s : Settings) (w : W) : (Except Stop α × Settings) × W :=
  ((d.run).run s).run w

@[simp] theorem outcome_pure (a : α) :
    outcome (pure a : Dialogue (StateM W) α) s w = ((.ok a, s), w) :=
  rfl

@[simp] theorem outcome_throw (stop : Stop) :
    outcome (throw stop : Dialogue (StateM W) α) s w = ((.error stop, s), w) :=
  rfl

@[simp] theorem outcome_get : outcome (get : Dialogue (StateM W) Settings) s w = ((.ok s, s), w) :=
  rfl

@[simp] theorem outcome_set : outcome (set t : Dialogue (StateM W) PUnit) s w = ((.ok (), t), w) :=
  rfl

@[simp] theorem outcome_modify (f : Settings → Settings) :
    outcome (modify f : Dialogue (StateM W) PUnit) s w = ((.ok (), f s), w) :=
  rfl

@[simp] theorem outcome_lift (x : StateM W α) :
    outcome (liftM x : Dialogue (StateM W) α) s w = ((.ok (x w).1, s), (x w).2) :=
  rfl

theorem outcome_bind (d : Dialogue (StateM W) α) (k : α → Dialogue (StateM W) β) :
    outcome (d >>= k) s w =
      match outcome d s w with
      | ((.ok a, s'), w') => outcome (k a) s' w'
      | ((.error stop, s'), w') => ((.error stop, s'), w') := by
  have hbind : outcome (d >>= k) s w =
      match outcome d s w with
      | ((result, s'), w') => outcome (ExceptT.mk (ExceptT.bindCont k result)) s' w' := rfl
  rw [hbind]
  obtain ⟨⟨result, s'⟩, w'⟩ := outcome d s w
  cases result <;> rfl

variable {d : Dialogue (StateM W) α} {k : α → Dialogue (StateM W) β} {a : α}

theorem outcome_bind_ok {w' : W} (h : outcome d s w = ((.ok a, t), w')) :
    outcome (d >>= k) s w = outcome (k a) t w' := by
  rw [outcome_bind, h]

theorem outcome_bind_eq_ok {b : β} {w'' : W} (h : outcome (d >>= k) s w = ((.ok b, t), w'')) :
    ∃ a s' w', outcome d s w = ((.ok a, s'), w') ∧ outcome (k a) s' w' = ((.ok b, t), w'') := by
  rw [outcome_bind] at h
  generalize outcome d s w = first at h ⊢
  obtain ⟨⟨result, s'⟩, w'⟩ := first
  cases result with
  | error stop => cases h
  | ok a => exact ⟨a, s', w', rfl, h⟩

theorem outcome_ofFault_ok {result : Except Fault α} (h : result = .ok a) :
    outcome (ofFault result : Dialogue (StateM W) α) s w = ((.ok a, s), w) := by
  rw [h]
  rfl

end SattLine.Menu
