import SattLine.Program.ToValue
import SattLine.Proofs.Usage.Walk

/-!
The uses that the variables of a value state. Main statements: noting a use changes nothing else of a
variable, and where only the uses of variables change, what held of them before and is kept by each
change holds of all variables in the value.
-/

namespace SattLine

namespace Usage

/-- One use after the other. -/
def noteAll (usage : Usage) (places : List (Path × Access)) : Usage :=
  places.foldl (fun usage place => usage.note place.2 place.1) usage

theorem noteAll_append (usage : Usage) (places more : List (Path × Access)) :
    usage.noteAll (places ++ more) = (usage.noteAll places).noteAll more := by
  simp [noteAll]

theorem places_noteAll (usage : Usage) (places : List (Path × Access)) :
    (usage.noteAll places).places = usage.places ++ places := by
  induction places generalizing usage with
  | nil => simp [noteAll]
  | cons place rest ih =>
    change ((usage.note place.2 place.1).noteAll rest).places = _
    rw [ih]
    simp [note]

/-- The later uses are the earlier ones with more behind them. -/
def Continues (usage later : Usage) : Prop :=
  ∃ more, later = usage.noteAll more

theorem Continues.refl (usage : Usage) : usage.Continues usage :=
  ⟨[], rfl⟩

theorem Continues.trans {a b c : Usage} (hab : a.Continues b) (hbc : b.Continues c) :
    a.Continues c := by
  obtain ⟨places, rfl⟩ := hab
  obtain ⟨more, rfl⟩ := hbc
  exact ⟨places ++ more, (noteAll_append a places more).symm⟩

end Usage

namespace Marks

/-- The later marks are of the same variables and have the uses of the earlier ones with more behind
them. -/
structure Continues (marks later : Marks) : Prop where
  next_eq : later.next = marks.next
  entries : ∀ id, (marks.entries.getD id {}).Continues (later.entries.getD id {})

theorem Continues.refl (marks : Marks) : marks.Continues marks :=
  ⟨rfl, fun _ => .refl _⟩

theorem Continues.trans {a b c : Marks} (hab : a.Continues b) (hbc : b.Continues c) :
    a.Continues c :=
  ⟨hbc.next_eq.trans hab.next_eq, fun id => (hab.entries id).trans (hbc.entries id)⟩

theorem continues_note (marks : Marks) (v : Variable) (access : Access) (path : Path) :
    marks.Continues (marks.note v access path) := by
  refine ⟨by simp [next, note], fun id => ?_⟩
  change (marks.get { v with id := id }).Continues ((marks.note v access path).get { v with id })
  rw [get_note]
  split
  · exact ⟨[(path, access)], rfl⟩
  · exact .refl _

end Marks

namespace Value

/-- A variable: nine fields that say what it is, and three that say how it is used. -/
abbrev variableWith (own : List Value) (usage : Usage) : Value :=
  .element .variable (own ++ [.bool usage.read, .bool usage.written, usage.placesValue])

variable {own : List Value}

theorem eq_nine (h : own.length = 9) : ∃ a b c d e f g i j, own = [a, b, c, d, e, f, g, i, j] := by
  match own, h with
  | [a, b, c, d, e, f, g, i, j], _ => exact ⟨a, b, c, d, e, f, g, i, j, rfl⟩

theorem toPath_texts (path : Path) : (Value.list (path.map .text)).toPath = .ok path := by
  rw [toPath, items_list]
  change (path.map Value.text).mapM name = .ok path
  induction path with
  | nil => rfl
  | cons first rest ih =>
    rw [List.map_cons, List.mapM_cons, ih]
    rfl

theorem toPlaces_placesValue (usage : Usage) : usage.placesValue.toPlaces = usage.places := by
  rw [Usage.placesValue, toPlaces, items_list]
  simp only [Except.toOption, Option.getD_some, List.filterMap_map]
  have hplace : ∀ place : Path × Access,
      (Value.tuple [.list (place.1.map .text), .text place.2.name]).toPlace = .ok place := by
    rintro ⟨path, access⟩
    cases access <;> simp [toPlace, halves, elements, name, text?, Access.name, Access.ofName?,
      toPath_texts, bind, Except.bind, pure, Except.pure]
  simp [hplace]

theorem variableWith_injective {own' : List Value} {usage usage' : Usage}
    (hlength : own.length = own'.length) (h : variableWith own usage = variableWith own' usage') :
    own = own' ∧ usage = usage' := by
  obtain ⟨hown, huses⟩ := List.append_inj (by simpa using h) hlength
  simp only [List.cons.injEq, Value.bool.injEq, and_true] at huses
  obtain ⟨hread, hwritten, hplaces⟩ := huses
  have hsame := congrArg toPlaces hplaces
  rw [toPlaces_placesValue, toPlaces_placesValue] at hsame
  cases usage
  cases usage'
  simp_all

theorem addUse_variableWith (hown : own.length = 9) (usage : Usage) (access : Access)
    (path : Path) :
    (variableWith own usage).addUse access (.list (path.map .text)) =
      .ok (variableWith own (usage.note access path)) := by
  obtain ⟨a, b, c, d, e, f, g, i, j, rfl⟩ := eq_nine hown
  have hplaces : (variableWith [a, b, c, d, e, f, g, i, j] usage).field? "usage_locations" =
      some usage.placesValue := rfl
  unfold addUse
  rw [hplaces]
  cases access <;> simp [Usage.placesValue, Usage.note, variableWith, setField, putIn,
    Element.fields, Access.flag, Access.name]

theorem noted_variableWith (hown : own.length = 9) (usage : Usage) (access : Access) (path : Path) :
    (variableWith own usage).noted access path = variableWith own (usage.note access path) := by
  rw [noted, addUse_variableWith hown]
  rfl

theorem foldl_noted (hown : own.length = 9) (usage : Usage) (places : List (Path × Access)) :
    places.foldl (fun v (path, access) => v.noted access path) (variableWith own usage) =
      variableWith own (usage.noteAll places) := by
  induction places generalizing usage with
  | nil => rfl
  | cons place rest ih =>
    obtain ⟨path, access⟩ := place
    rw [List.foldl_cons]
    dsimp only
    rw [noted_variableWith hown, ih]
    rfl

/-- Values without parts of their own. -/
def isAtom : Value → Bool
  | .list _ | .tuple _ | .dict _ _ | .tree _ _ _ | .element _ _ => false
  | _ => true

/-- The uses of each variable in the value, at whatever depth, meet a condition. Keys are atoms. -/
inductive AllUses (P : Usage → Prop) : Value → Prop
  | atom {v : Value} (h : v.isAtom = true) : AllUses P v
  | list {items : List Value} (h : ∀ v ∈ items, AllUses P v) : AllUses P (.list items)
  | tuple {items : List Value} (h : ∀ v ∈ items, AllUses P v) : AllUses P (.tuple items)
  | dict {keys values : List Value} (hkeys : ∀ key ∈ keys, key.isAtom = true)
      (h : ∀ v ∈ values, AllUses P v) : AllUses P (.dict keys values)
  | tree {label : String} {ofRule : Bool} {children : List Value}
      (h : ∀ v ∈ children, AllUses P v) : AllUses P (.tree label ofRule children)
  | declared {own : List Value} {usage : Usage} (hlength : own.length = 9)
      (hown : ∀ v ∈ own, AllUses P v) (h : P usage) : AllUses P (variableWith own usage)
  | element {kind : Element} {fields : List Value} (hkind : kind ≠ .variable)
      (h : ∀ v ∈ fields, AllUses P v) : AllUses P (.element kind fields)

section AllUses

variable {P Q : Usage → Prop} {v w : Value} {items fields : List Value}

theorem AllUses.mono (hPQ : ∀ usage, P usage → Q usage) (h : AllUses P v) : AllUses Q v := by
  induction h with
  | atom h => exact .atom h
  | list _ ih => exact .list ih
  | tuple _ ih => exact .tuple ih
  | dict hkeys _ ih => exact .dict hkeys ih
  | tree _ ih => exact .tree ih
  | declared hlength _ h ih => exact .declared hlength ih (hPQ _ h)
  | element hkind _ ih => exact .element hkind ih

theorem AllUses.of_list (h : AllUses P (.list items)) : ∀ v ∈ items, AllUses P v := by
  cases h with
  | atom h => cases h
  | list h => exact h

theorem AllUses.of_tuple (h : AllUses P (.tuple items)) : ∀ v ∈ items, AllUses P v := by
  cases h with
  | atom h => cases h
  | tuple h => exact h

theorem AllUses.of_dict {keys values : List Value} (h : AllUses P (.dict keys values)) :
    ∀ key ∈ keys, key.isAtom = true := by
  cases h with
  | atom h => cases h
  | dict hkeys _ => exact hkeys

theorem AllUses.of_variable (h : AllUses P (.element .variable fields)) :
    ∃ own usage, own.length = 9 ∧ (∀ v ∈ own, AllUses P v) ∧ P usage ∧
      Value.element .variable fields = variableWith own usage := by
  cases h with
  | atom h => cases h
  | declared hlength hown h => exact ⟨_, _, hlength, hown, h, rfl⟩
  | element hkind _ => exact absurd rfl hkind

variable {kind : Element}

theorem AllUses.of_element (h : AllUses P (.element kind fields)) (hkind : kind ≠ .variable) :
    ∀ v ∈ fields, AllUses P v := by
  cases h with
  | atom h => cases h
  | declared _ _ _ => exact absurd rfl hkind
  | element _ h => exact h

@[simp] theorem allUses_null : AllUses P .null :=
  .atom rfl

@[simp] theorem allUses_bool (b : Bool) : AllUses P (.bool b) :=
  .atom rfl

@[simp] theorem allUses_text (s : String) : AllUses P (.text s) :=
  .atom rfl

@[simp] theorem allUses_simpleType (type : SimpleType) : AllUses P (.simpleType type) :=
  .atom rfl

@[simp] theorem allUses_list_iff : AllUses P (.list items) ↔ ∀ v ∈ items, AllUses P v :=
  ⟨AllUses.of_list, .list⟩

theorem allUses_element_iff (hkind : kind ≠ .variable) :
    AllUses P (.element kind fields) ↔ ∀ v ∈ fields, AllUses P v :=
  ⟨fun h => h.of_element hkind, .element hkind⟩

end AllUses

/-- Nothing is changed but the uses of variables, and these by the given relation. -/
inductive UsesChanged (R : Usage → Usage → Prop) : Value → Value → Prop
  | same (v : Value) : UsesChanged R v v
  | declared {own : List Value} {usage later : Usage} (hlength : own.length = 9)
      (h : R usage later) : UsesChanged R (variableWith own usage) (variableWith own later)
  | list {items items' : List Value} (hlength : items.length = items'.length)
      (h : ∀ pair ∈ items.zip items', UsesChanged R pair.1 pair.2) :
      UsesChanged R (.list items) (.list items')
  | tuple {items items' : List Value} (hlength : items.length = items'.length)
      (h : ∀ pair ∈ items.zip items', UsesChanged R pair.1 pair.2) :
      UsesChanged R (.tuple items) (.tuple items')
  | element {kind : Element} {fields fields' : List Value} (hkind : kind ≠ .variable)
      (hlength : fields.length = fields'.length)
      (h : ∀ pair ∈ fields.zip fields', UsesChanged R pair.1 pair.2) :
      UsesChanged R (.element kind fields) (.element kind fields')

section UsesChanged

variable {P Q : Usage → Prop} {R S : Usage → Usage → Prop} {v w : Value}
  {items items' : List Value}

theorem UsesChanged.mono (hRS : ∀ usage later, R usage later → S usage later)
    (h : UsesChanged R v w) : UsesChanged S v w := by
  induction h with
  | same v => exact .same v
  | declared hlength h => exact .declared hlength (hRS _ _ h)
  | list hlength _ ih => exact .list hlength ih
  | tuple hlength _ ih => exact .tuple hlength ih
  | element hkind hlength _ ih => exact .element hkind hlength ih

/-- What stands in the second of two lists has a partner in the first. -/
theorem forall_of_zip {α β : Type} {xs : List α} {ys : List β} {A : α → Prop} {B : β → Prop}
    (hlength : xs.length = ys.length) (hA : ∀ x ∈ xs, A x)
    (h : ∀ pair ∈ xs.zip ys, A pair.1 → B pair.2) : ∀ y ∈ ys, B y := by
  intro y hy
  obtain ⟨i, hi, rfl⟩ := List.getElem_of_mem hy
  have hpair : (xs[i], ys[i]) ∈ xs.zip ys := by
    rw [List.mem_iff_getElem]
    exact ⟨i, by simp [hlength, hi], by simp⟩
  exact h _ hpair (hA _ (List.getElem_mem _))

theorem UsesChanged.allUses (h : UsesChanged R v w) (hv : AllUses P v)
    (hPQ : ∀ usage, P usage → Q usage)
    (hR : ∀ usage later, P usage → R usage later → Q later) : AllUses Q w := by
  induction h with
  | same v => exact hv.mono hPQ
  | declared hlength h =>
    obtain ⟨own, usage, hlength', hown, hP, heq⟩ := hv.of_variable
    obtain ⟨rfl, rfl⟩ := variableWith_injective (hlength.trans hlength'.symm) heq
    exact .declared hlength (fun v hv => (hown v hv).mono hPQ) (hR _ _ hP h)
  | list hlength _ ih => exact .list (forall_of_zip hlength hv.of_list ih)
  | tuple hlength _ ih => exact .tuple (forall_of_zip hlength hv.of_tuple ih)
  | element hkind hlength _ ih =>
    exact .element hkind (forall_of_zip hlength (hv.of_element hkind) ih)

theorem UsesChanged.unchanged (items : List Value) :
    List.Forall₂ (UsesChanged R) items items :=
  List.forall₂_same.mpr fun v _ => .same v

theorem UsesChanged.of_list (h : List.Forall₂ (UsesChanged R) items items') :
    UsesChanged R (.list items) (.list items') := by
  obtain ⟨hlength, hpairs⟩ := List.forall₂_iff_zip.mp h
  exact .list hlength fun _ hpair => hpairs hpair

theorem UsesChanged.of_tuple (h : List.Forall₂ (UsesChanged R) items items') :
    UsesChanged R (.tuple items) (.tuple items') := by
  obtain ⟨hlength, hpairs⟩ := List.forall₂_iff_zip.mp h
  exact .tuple hlength fun _ hpair => hpairs hpair

theorem UsesChanged.of_element {kind : Element} (hkind : kind ≠ .variable)
    (h : List.Forall₂ (UsesChanged R) items items') :
    UsesChanged R (.element kind items) (.element kind items') := by
  obtain ⟨hlength, hpairs⟩ := List.forall₂_iff_zip.mp h
  exact .element hkind hlength fun _ hpair => hpairs hpair

end UsesChanged

end Value

end SattLine
