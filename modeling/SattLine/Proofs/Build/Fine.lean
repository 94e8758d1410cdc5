import SattLine.Proofs.Build.Construction
import SattLine.Proofs.Usage.WellMade

/-!
Fine values: whatever element stands in their lists and trees is of the right shape. Main
statements: what is picked out of fine values is fine, so the constructions that only pick out parts
need no further proof.
-/

namespace SattLine.Build

open Declaring (Reads)
open Usage (Faultless Legible Operand Condition IsDrawing baseName expression expressions)

/-- The element has the shape that an analysis expects of its kind, conditions apart. -/
def SoundElement (kind : Element) (fields : List Value) : Prop :=
  let v := Value.element kind fields
  match kind with
  | .variable => Reads v.toVariable fun _ => True
  | .parameterMapping => ∃ m, v.toMapping = .ok m ∧ Legible m
  | .moduleHeader => v.IsHeader
  | .moduleDef => IsDrawing v
  | .moduleCode => Faultless (Usage.code v)
  | .sequence => Faultless (Usage.sequence v)
  | .equation => Faultless (Usage.equation v)
  | .codeBlocks => ∃ enter active exit, fields = [.list enter, .list active, .list exit] ∧
      Faultless (expressions enter ++ expressions active ++ expressions exit)
  | .singleModule | .frameModule | .typeInstance => v.ReadsModule
  | .typeDef => Reads v.toTypeDef TypeDef.WellMade
  | .basePicture => Reads v.toPicture Picture.WellMade
  | .graphObject => Faultless (Usage.shownIn v)
  | .dataType | .interactObject | .component => True
  | .step | .transition | .alternative | .parallel | .subsequence | .transitionSub | .fork
  | .stop => Faultless (Usage.node kind fields)

/-- Values that have parts of their own. Tuples are taken as a whole. -/
def isCompound : Value → Bool
  | .list _ | .dict _ _ | .tree _ _ _ | .element _ _ => true
  | _ => false

/-- All elements in a value are of the right shape, and its names can be read. -/
inductive Fine : Value → Prop
  | plain {v} (h : isCompound v = false) : Fine v
  | list {items} (h : ∀ v ∈ items, Fine v) : Fine (.list items)
  | dict {keys values} (hname : ∃ base, baseName (.dict keys values) = .ok base)
      (h : ∀ v ∈ values, Fine v) : Fine (.dict keys values)
  | tree {label ofRule children} (h : ∀ v ∈ children, Fine v) : Fine (.tree label ofRule children)
  | element {kind fields} (h : SoundElement kind fields) : Fine (.element kind fields)

def AllFine (items : List Value) : Prop :=
  ∀ v ∈ items, Fine v

section Fine

variable {v : Value} {items : List Value}

theorem fine_null : Fine .null :=
  .plain rfl

theorem Fine.baseName (h : Fine v) : ∃ base, baseName v = .ok base := by
  cases h with
  | dict hname _ => exact hname
  | list _ | tree _ | element _ => exact ⟨none, rfl⟩
  | plain h =>
    cases v with
    | text s | token kind s =>
      rw [Usage.baseName]
      simp only [Usage.fullName?, Value.text?]
      split <;> exact ⟨_, rfl⟩
    | list _ | dict _ _ | tree _ _ _ | element _ _ => cases h
    | _ => exact ⟨none, rfl⟩

theorem Fine.of_list (h : Fine (.list items)) : AllFine items := by
  cases h with
  | plain h => cases h
  | list h => exact h

theorem Fine.of_tree {label : String} {ofRule : Bool} (h : Fine (.tree label ofRule items)) :
    AllFine items := by
  cases h with
  | plain h => cases h
  | tree h => exact h

theorem Fine.of_element {kind : Element} {fields : List Value} (h : Fine (.element kind fields)) :
    SoundElement kind fields := by
  cases h with
  | plain h => cases h
  | element h => exact h

theorem Fine.of_dict {keys values : List Value} (h : Fine (.dict keys values)) :
    AllFine values := by
  cases h with
  | plain h => cases h
  | dict _ h => exact h

theorem Fine.of_isElement {kind : Element} (h : Fine v) (hkind : v.isElement kind = true) :
    ∃ fields, v = .element kind fields ∧ SoundElement kind fields := by
  cases v with
  | element own fields =>
    obtain rfl : own = kind := by simpa [Value.isElement] using hkind
    exact ⟨fields, rfl, h.of_element⟩
  | _ => cases hkind

theorem Fine.children {label : String} {children : List Value} (h : Fine v)
    (hchildren : v.treeChildren? label = some children) : AllFine children := by
  cases v with
  | tree own ofRule found =>
    simp only [Value.treeChildren?] at hchildren
    split at hchildren
    · cases hchildren
      exact h.of_tree
    · cases hchildren
  | _ => cases hchildren

theorem Fine.getOrNull (h : Fine v) (name : String) : Fine (v.getOrNull name) := by
  cases hfound : v.get? name with
  | none =>
    rw [Value.getOrNull, hfound]
    exact fine_null
  | some x =>
    rw [Value.getOrNull, hfound]
    cases v with
    | dict keys values =>
      simp only [Value.get?, Option.map_eq_some_iff] at hfound
      obtain ⟨⟨key, value⟩, hentry, rfl⟩ := hfound
      exact h.of_dict _ (List.of_mem_zip (List.mem_of_find?_eq_some hentry)).2
    | _ => cases hfound

theorem AllFine.nil : AllFine [] := by
  simp [AllFine]

theorem AllFine.cons (hv : Fine v) (h : AllFine items) : AllFine (v :: items) :=
  List.forall_mem_cons.mpr ⟨hv, h⟩

theorem AllFine.filter (h : AllFine items) (p : Value → Bool) : AllFine (items.filter p) :=
  fun v hv => h v (List.mem_of_mem_filter hv)

theorem AllFine.withoutTokens (h : AllFine items) : AllFine (withoutTokens items) :=
  h.filter _

theorem AllFine.flatMap {f : Value → List Value} (h : ∀ v ∈ items, AllFine (f v)) :
    AllFine (items.flatMap f) := by
  intro v hv
  obtain ⟨w, hw, hmem⟩ := List.mem_flatMap.mp hv
  exact h w hw v hmem

theorem AllFine.getD {found : Option Value} (h : ∀ v ∈ found, Fine v) :
    Fine (found.getD .null) := by
  cases found with
  | none => exact fine_null
  | some v => exact h v rfl

theorem AllFine.firstOrNull (h : AllFine items) (p : Value → Bool) : Fine (firstOrNull p items) :=
  AllFine.getD fun v hv => h v (List.mem_of_find?_eq_some hv)

theorem AllFine.lastOrNull (h : AllFine items) (p : Value → Bool) : Fine (lastOrNull p items) :=
  AllFine.getD fun v hv => h v (List.mem_of_mem_filter (List.mem_of_getLast? hv))

/-- The last element of a kind is of the right shape, if there is one. -/
theorem AllFine.lastElement (h : AllFine items) (kind : Element) :
    lastElement kind items = .null ∨
      ∃ fields, lastElement kind items = .element kind fields ∧ SoundElement kind fields := by
  cases hfound : (items.filter (Value.isElement kind)).getLast? with
  | none => exact .inl (by rw [Build.lastElement, Build.lastOrNull, hfound]; rfl)
  | some v =>
    have hlast : Build.lastElement kind items = v := by
      rw [Build.lastElement, Build.lastOrNull, hfound]
      rfl
    obtain ⟨hmem, hkind⟩ := List.mem_filter.mp (List.mem_of_getLast? hfound)
    rw [hlast]
    exact .inr ((h v hmem).of_isElement hkind)

theorem AllFine.children (h : AllFine items) (label : String) :
    ∀ v ∈ items, AllFine ((v.treeChildren? label).getD []) := by
  intro v hv
  cases hfound : v.treeChildren? label with
  | none => exact .nil
  | some children => exact (h v hv).children hfound

theorem AllFine.allChildren (h : AllFine items) (label : String) :
    AllFine (allChildren label items) :=
  .flatMap (h.children label)

theorem AllFine.elementsUnder (h : AllFine items) (label : String) (kind : Element) :
    AllFine (elementsUnder label kind items) :=
  .flatMap fun v hv => (h.children label v hv).filter _

theorem AllFine.lastChildren (h : AllFine items) (label : String) :
    AllFine (lastChildren label items) := by
  unfold Build.lastChildren
  cases hfound : (items.filterMap (Value.treeChildren? label)).getLast? with
  | none => exact .nil
  | some children =>
    obtain ⟨v, hv, hchildren⟩ := List.mem_filterMap.mp (List.mem_of_getLast? hfound)
    exact (h v hv).children hchildren

theorem Fine.children? (h : Fine v) : AllFine ((v.children?).getD []) := by
  cases v with
  | tree label ofRule children => exact h.of_tree
  | _ => exact .nil

mutual

theorem Fine.flatten : {v : Value} → Fine v → AllFine (flatten v)
  | .list items, h => by
    rw [Build.flatten]
    exact AllFine.flattenAll h.of_list
  | .tree label ofRule children, h => by
    unfold Build.flatten
    split
    case h_1 heq => cases heq
    case h_2 heq =>
      cases heq
      exact AllFine.flattenAll h.of_tree
    case h_3 heq =>
      cases heq
      exact AllFine.flattenAll h.of_tree
    case h_4 => exact .cons h .nil
  | .null, h | .bool _, h | .int _, h | .real _, h | .text _, h | .moment _, h | .token _ _, h
  | .tuple _, h | .dict _ _, h | .simpleType _, h | .typeDefault, h | .element _ _, h =>
    .cons h .nil

theorem AllFine.flattenAll : {items : List Value} → AllFine items → AllFine (flattenAll items)
  | [], _ => by
    rw [Build.flattenAll]
    exact .nil
  | v :: rest, h => by
    rw [Build.flattenAll]
    obtain ⟨hv, hrest⟩ := List.forall_mem_cons.mp h
    exact List.forall_mem_append.mpr ⟨Fine.flatten hv, AllFine.flattenAll hrest⟩

end

end Fine

end SattLine.Build
