import Mathlib.Data.List.Basic
import Mathlib.Data.Option.Basic
import SattLine.Toml.Document

/-!
What a document has entered at its top stays as it is. A text or a truth value has no place inside
it that a later statement could reach, and a list is closed as soon as it is entered. Main
statement: a settled value is the value of the whole document, whatever the statements behind it say.
-/

namespace SattLine.Toml

section Tables

variable {table : Value} {name other : String} {value : Value}

/-- A dictionary with one value for each key. -/
def IsTable (table : Value) : Prop :=
  ∃ keys values, table = .dict keys values ∧ keys.length = values.length

theorem length_putIn {α : Type} (isKey : α → Bool) (key : α) (value : Value) (keys : List α)
    (values : List Value) (h : keys.length = values.length) :
    (Value.putIn isKey key value keys values).1.length =
      (Value.putIn isKey key value keys values).2.length := by
  induction keys generalizing values with
  | nil =>
    cases values with
    | nil => rfl
    | cons v values => simp at h
  | cons k keys ih =>
    cases values with
    | nil => simp at h
    | cons v values =>
      have hrest := ih values (by simpa using h)
      rw [Value.putIn]
      split
      · simpa using h
      · simpa using hrest

theorem lookup_putIn (keys values : List Value) (h : keys.length = values.length) :
    let put := Value.putIn (·.text? == some name) (.text name) value keys values
    ((put.1.zip put.2).find? fun (key, _) => key.text? == some other).map Prod.snd =
      if other = name then some value
      else ((keys.zip values).find? fun (key, _) => key.text? == some other).map Prod.snd := by
  induction keys generalizing values with
  | nil =>
    cases values with
    | nil => by_cases hname : other = name <;> simp [Value.putIn, Value.text?, hname, Ne.symm]
    | cons v values => simp at h
  | cons k keys ih =>
    cases values with
    | nil => simp at h
    | cons v values =>
      have hrest := ih values (by simpa using h)
      by_cases hkey : k.text? = some name
      · by_cases hname : other = name
        · simp [Value.putIn, hkey, hname]
        · simp [Value.putIn, hkey, hname, Ne.symm hname]
      · by_cases hother : k.text? = some other
        · have hname : other ≠ name := fun heq => hkey (heq ▸ hother)
          simp [Value.putIn, hname, hother]
        · simpa [Value.putIn, hkey, hother] using hrest

theorem IsTable.put (h : IsTable table) (name : String) (value : Value) :
    IsTable (table.put name value) := by
  obtain ⟨keys, values, rfl, hlength⟩ := h
  exact ⟨_, _, rfl, length_putIn _ _ _ keys values hlength⟩

theorem get?_put (h : IsTable table) :
    (table.put name value).get? other = if other = name then some value else table.get? other := by
  obtain ⟨keys, values, rfl, hlength⟩ := h
  exact lookup_putIn keys values hlength

end Tables

section Paths

variable {table table' : Value} {name : String} {value : Value} {path : List String}
  {change : Value → Option Value}

/-- The table still has the value under the name. -/
def Keeps (name : String) (value : Value) (table : Value) : Prop :=
  IsTable table ∧ table.get? name = some value

theorem Keeps.put {other : String} (h : Keeps name value table) (hne : other ≠ name)
    (v : Value) : Keeps name value (table.put other v) := by
  refine ⟨h.1.put other v, ?_⟩
  rw [get?_put h.1, if_neg (Ne.symm hne), h.2]

/-- A change below a path leaves a value of the table alone if the path does not lead into it. -/
theorem Keeps.atPath? {lists : Bool} (h : Keeps name value table)
    (hpath : isNested value = true → path.head? ≠ some name)
    (hchange : path = [] → ∀ t, change table = some t → Keeps name value t)
    (hresult : atPath? lists change path table = some table') : Keeps name value table' := by
  cases path with
  | nil =>
    obtain ⟨keys, values, rfl, -⟩ := h.1
    exact hchange rfl table' hresult
  | cons key path =>
    rw [Toml.atPath?] at hresult
    have hne : key ≠ name := by
      rintro rfl
      rw [h.2, Option.getD_some] at hresult
      cases value <;> first | exact hpath rfl rfl | cases hresult
    split at hresult
    · obtain ⟨below, -, hbelow⟩ := Option.bind_eq_some_iff.mp hresult
      cases hbelow
      exact h.put hne _
    · split at hresult
      · obtain ⟨last, -, hlast⟩ := Option.bind_eq_some_iff.mp hresult
        cases hlast
        exact h.put hne _
      · cases hresult
    · cases hresult

theorem Keeps.enter? {key : String} {v : Value} (h : Keeps name value table)
    (hresult : Toml.enter? key v table = some table') : Keeps name value table' := by
  rw [Toml.enter?] at hresult
  split at hresult
  · cases hresult
  · rename_i hkey
    cases hresult
    refine h.put ?_ v
    rintro rfl
    simp [Value.hasKey, h.2] at hkey

theorem Keeps.appendTable {key : String} (h : Keeps name value table)
    (hopen : isNested value = true → key ≠ name)
    (hresult : Progress.appendTable key table = some table') : Keeps name value table' := by
  have hne : key ≠ name := by
    rintro rfl
    rw [Progress.appendTable, h.2] at hresult
    cases value <;> first | exact hopen rfl rfl | cases hresult
  rw [Progress.appendTable] at hresult
  split at hresult
  · cases hresult
    exact h.put hne _
  · cases hresult
    exact h.put hne _
  · cases hresult

end Paths

section Statements

variable {p q : Progress} {name : String} {value : Value} {chars rest : List Char}

/-- The value of a name at the top of the document cannot be changed any more. -/
structure Settled (p : Progress) (name : String) (value : Value) : Prop where
  keeps : Keeps name value p.data
  closed : isNested value = true → [name] ∈ p.closed

variable {key : List String} {limit : Nat}

theorem isClosed_of_head? {closed : List (List String)} (hmem : [name] ∈ closed)
    (hkey : key.head? = some name) : isClosed closed key = true := by
  obtain ⟨path, rfl⟩ : ∃ path, key = name :: path := by
    cases key with
    | nil => cases hkey
    | cons k path => exact ⟨path, by rw [Option.some.inj hkey]⟩
  exact List.any_eq_true.mpr ⟨[name], hmem, by simp⟩

theorem key?_ne_nil (h : key? limit chars = some (key, rest)) : key ≠ [] := by
  cases limit with
  | zero => cases h
  | succ limit =>
    simp only [key?, Option.bind_eq_bind, Option.bind_eq_some_iff] at h
    obtain ⟨⟨first, others⟩, -, h⟩ := h
    dsimp only at h
    split at h
    · obtain ⟨⟨names, left⟩, -, h⟩ := Option.bind_eq_some_iff.mp h
      cases h
      exact List.cons_ne_nil _ _
    · cases h
      exact List.cons_ne_nil _ _

/-- A document goes on behind a statement on the next line, or it ends there. -/
theorem statements?_eq_some_iff :
    statements? (limit + 1) p chars = some q ↔
      ∃ p' rest, statement? p (skipBlanks chars) = some (p', rest) ∧
        (skipComment? (skipBlanks rest) = some [] ∧ p' = q ∨
          ∃ left, skipComment? (skipBlanks rest) = some ('\n' :: left) ∧
            statements? limit p' left = some q) := by
  simp only [statements?, Option.bind_eq_bind, Option.bind_eq_some_iff, Prod.exists]
  refine exists_congr fun p' => exists_congr fun rest => and_congr_right fun _ => ?_
  constructor
  · rintro ⟨left, hskip, hleft⟩
    split at hleft
    · exact .inl ⟨hskip, Option.some.inj hleft⟩
    · exact .inr ⟨_, hskip, hleft⟩
    · cases hleft
  · rintro (⟨hskip, rfl⟩ | ⟨left, hskip, hleft⟩)
    · exact ⟨_, hskip, rfl⟩
    · exact ⟨_, hskip, hleft⟩

variable (h : Settled p name value)

include h

/-- A key that was not closed does not lead into a settled value. -/
theorem Settled.head?_ne (hkey : isClosed p.closed key = false)
    (hnested : isNested value = true) : key.head? ≠ some name := by
  intro hhead
  rw [isClosed_of_head? (h.closed hnested) hhead] at hkey
  cases hkey

theorem Settled.openTable? (hresult : p.openTable? key = some q) : Settled q name value := by
  simp only [Progress.openTable?, Option.bind_eq_bind, Option.bind_eq_some_iff,
    Option.guard_eq_some', Bool.not_eq_true', Bool.or_eq_false_iff, Option.pure_def, Option.some.injEq] at hresult
  obtain ⟨_, ⟨_, hclosed⟩, data, hdata, rfl⟩ := hresult
  refine ⟨h.keeps.atPath? (h.head?_ne hclosed) ?_ hdata, h.closed⟩
  intro _ t ht
  exact Option.some.inj ht ▸ h.keeps

theorem Settled.openItem? (hkey : key ≠ []) (hresult : p.openItem? key = some q) :
    Settled q name value := by
  simp only [Progress.openItem?, Option.bind_eq_bind, Option.bind_eq_some_iff,
    Option.guard_eq_some', Bool.not_eq_true', Option.pure_def, Option.some.injEq] at hresult
  obtain ⟨_, hclosed, data, hdata, rfl⟩ := hresult
  obtain ⟨first, path, rfl⟩ := List.exists_cons_of_ne_nil hkey
  have hfirst (hnested : isNested value = true) : first ≠ name := by
    simpa using h.head?_ne hclosed hnested
  refine ⟨h.keeps.atPath? ?_ ?_ hdata, fun hnested => ?_⟩
  · intro hnested
    cases path with
    | nil => simp
    | cons second path => simpa using hfirst hnested
  · intro hlast t ht
    refine h.keeps.appendTable ?_ ht
    cases path with
    | nil => simpa using hfirst
    | cons second path => simp at hlast
  · refine List.mem_filter.mpr ⟨h.closed hnested, ?_⟩
    simp [List.isPrefixOf, hfirst hnested]

theorem Settled.enter? {v : Value} (hresult : p.enter? key v = some q) : Settled q name value := by
  simp only [Progress.enter?, Option.bind_eq_bind, Option.bind_eq_some_iff, Option.guard_eq_some',
    Bool.not_eq_true', Option.pure_def, Option.some.injEq] at hresult
  obtain ⟨_, _, _, hclosed, data, hdata, rfl⟩ := hresult
  refine ⟨h.keeps.atPath? (h.head?_ne hclosed) (fun _ t ht => h.keeps.enter? ht) hdata, ?_⟩
  intro hnested
  dsimp only
  split
  · exact List.mem_cons_of_mem _ (h.closed hnested)
  · exact h.closed hnested

theorem Settled.endSection : Settled p.endSection name value :=
  ⟨h.keeps, h.closed⟩

theorem Settled.statement? (hresult : statement? p chars = some (q, rest)) :
    Settled q name value := by
  unfold Toml.statement? at hresult
  split at hresult
  · cases hresult
    exact h
  · simp only [Option.bind_eq_bind, Option.bind_eq_some_iff, Option.pure_def, Option.some.injEq,
      Prod.mk.injEq] at hresult
    obtain ⟨⟨key, _⟩, hkey, p', hopen, _, _, _, _, rfl, _⟩ := hresult
    exact h.endSection.openItem? (key?_ne_nil hkey) hopen
  · simp only [Option.bind_eq_bind, Option.bind_eq_some_iff, Option.pure_def, Option.some.injEq,
      Prod.mk.injEq] at hresult
    obtain ⟨⟨key, _⟩, _, p', hopen, _, _, rfl, _⟩ := hresult
    exact h.endSection.openTable? hopen
  · split at hresult
    · cases hresult
      exact h
    · simp only [Option.bind_eq_bind, Option.bind_eq_some_iff, Option.pure_def, Option.some.injEq,
        Prod.mk.injEq] at hresult
      obtain ⟨⟨key, _⟩, _, _, _, ⟨v, _⟩, _, p', henter, rfl, _⟩ := hresult
      exact h.enter? henter

/-- A settled value is the value that the whole document gives to its name. -/
theorem Settled.statements? (hresult : statements? limit p chars = some q) :
    Settled q name value := by
  induction limit generalizing p chars with
  | zero => cases hresult
  | succ limit ih =>
    obtain ⟨p', rest, hstatement, ⟨-, rfl⟩ | ⟨left, -, hleft⟩⟩ :=
      statements?_eq_some_iff.mp hresult
    · exact h.statement? hstatement
    · exact ih (h.statement? hstatement) hleft

end Statements

end SattLine.Toml
