import Mathlib.Data.List.TakeWhile
import SattLine.Proofs.Usage.Covering

/-!
The spelling of variable references. `Value.small` puts every reference in a value into small
letters; two values that are the same then differ in the letter case of references only. Main
statements of this module: what is found in code, in tails and in connections does not depend on
letter case, and what is found in a text object depends only on whether the shown name is written in
small letters.
-/

namespace SattLine

open List

namespace Text

/-- A dotted name with each of its parts in small letters. -/
def smallName (name : String) : String :=
  String.ofList (['.'].intercalate ((stretches '.' name.toList).map (lowerAfter [])))

/-- Whether the variable of a dotted name is written in small letters. -/
def hasSmallBase (name : String) : Bool :=
  lower (before '.' name) == before '.' name

theorem stretches_eq_cons (separator : Char) (chars : List Char) :
    ∃ others, stretches separator chars = chars.takeWhile (· != separator) :: others := by
  induction chars with
  | nil => exact ⟨[], rfl⟩
  | cons c rest ih =>
    obtain ⟨others, hrest⟩ := ih
    by_cases hc : c = separator
    · exact ⟨stretches separator rest, by simp [stretches, hc]⟩
    · exact ⟨others, by simp [stretches, hc, hrest]⟩

theorem takeWhile_intercalate {first : List Char} (h : '.' ∉ first) (others : List (List Char)) :
    (['.'].intercalate (first :: others)).takeWhile (· != '.') = first := by
  have hall : ∀ c ∈ first, (c != '.') = true := by
    intro c hc
    simp only [bne_iff_ne, ne_eq]
    rintro rfl
    exact h hc
  cases others with
  | nil =>
    rw [intercalate_singleton]
    exact takeWhile_eq_self_iff.mpr hall
  | cons second rest =>
    rw [intercalate_cons_cons, append_assoc, takeWhile_append_of_pos hall]
    simp

/-- The variable of a dotted name in small letters is that of the name, in small letters. -/
theorem before_smallName (name : String) :
    before '.' (smallName name) = lower (before '.' name) := by
  obtain ⟨others, hcut⟩ := stretches_eq_cons '.' name.toList
  have hdot : '.' ∉ name.toList.takeWhile (· != '.') := by
    intro hmem
    have hne := mem_takeWhile_imp hmem
    simp at hne
  unfold before smallName lower
  rw [String.toList_ofList, String.toList_ofList, hcut, map_cons,
    takeWhile_intercalate (mt dot_mem_lowerAfter.mp hdot)]

theorem lower_before_smallName (name : String) :
    lower (before '.' (smallName name)) = lower (before '.' name) := by
  rw [before_smallName, lower_lower]

end Text

namespace Usage

theorem baseOf_smallName (name : String) : baseOf (Text.smallName name) = baseOf name := by
  simp only [baseOf, Text.before_smallName, Text.lower_lower, beq_iff_eq, Text.lower_eq_empty]

/-- What a bare text at some place of a value is: no name, the name of a variable, or a name that is
shown in a text; and whether the items of a list at that place are such names. -/
inductive NamePlace where
  | plain
  | name
  | names
  | shown
  | showns
  deriving DecidableEq

namespace NamePlace

/-- The place of the items of a list. -/
def inner : NamePlace → NamePlace
  | .names => .name
  | .showns => .shown
  | _ => .plain

/-- The place of a value in a dictionary by its key. -/
def ofKey : Option String → NamePlace
  | some "var_name" => .name
  | some "tail" => .name
  | some "tails" => .names
  | some "text_vars" => .showns
  | _ => .plain

@[simp] theorem ofKey_var_name : ofKey (some "var_name") = .name := rfl

@[simp] theorem ofKey_tail : ofKey (some "tail") = .name := rfl

@[simp] theorem ofKey_tails : ofKey (some "tails") = .names := rfl

@[simp] theorem ofKey_text_vars : ofKey (some "text_vars") = .showns := rfl

theorem ofKey_other (key : String) (h : key ∉ ["var_name", "tail", "tails", "text_vars"]) :
    ofKey (some key) = .plain := by
  simp only [mem_cons, not_mem_nil, or_false, not_or] at h
  unfold ofKey
  split <;> simp_all

/-- A text at some place: names are put into small letters. Names that are shown are looked up as
they are written, so it is kept whether they were in small letters before. -/
def spell (text : String → Value) : NamePlace → String → Value
  | .name, s => text (Text.smallName s)
  | .shown, s => .token (if Text.hasSmallBase s then "small" else "capital") (Text.smallName s)
  | _, s => text s

end NamePlace

end Usage

namespace Value

open Usage (NamePlace)

mutual

/-- The value at some place with all its references in small letters. -/
def small (place : NamePlace) : Value → Value
  | .text s => place.spell .text s
  | .token kind s => place.spell (.token kind) s
  | .list items => .list (smallAll place.inner items)
  | .tuple items => .tuple (smallAll place.inner items)
  | .dict keys values => .dict keys (smallEntries keys values)
  | .tree label ofRule children => .tree label ofRule (smallAll .plain children)
  | .element kind fields => .element kind (smallAll .plain fields)
  | v => v

def smallAll (place : NamePlace) : List Value → List Value
  | [] => []
  | v :: rest => small place v :: smallAll place rest

def smallEntries : List Value → List Value → List Value
  | _, [] => []
  | [], v :: values => small .plain v :: smallEntries [] values
  | key :: keys, v :: values => small (.ofKey key.text?) v :: smallEntries keys values

end

variable {place : NamePlace}

theorem smallAll_eq_map (place : NamePlace) (items : List Value) :
    smallAll place items = items.map (small place) := by
  induction items with
  | nil => rfl
  | cons v rest ih => rw [smallAll, ih, map_cons]

theorem find?_zip_smallEntries (name : String) (keys values : List Value) :
    (keys.zip (smallEntries keys values)).find? (fun entry => entry.1.text? == some name) =
      ((keys.zip values).find? (fun entry => entry.1.text? == some name)).map
        fun entry => (entry.1, small (.ofKey (some name)) entry.2) := by
  induction keys generalizing values with
  | nil => simp
  | cons key keys ih =>
    cases values with
    | nil => simp [smallEntries]
    | cons v values =>
      simp only [smallEntries, zip_cons_cons, List.find?_cons]
      cases hkey : key.text? == some name with
      | true => simp [eq_of_beq hkey]
      | false => exact ih values

theorem get?_small (v : Value) (name : String) :
    (small place v).get? name = (v.get? name).map (small (.ofKey (some name))) := by
  cases v with
  | dict keys values =>
    simp only [small, get?, find?_zip_smallEntries, Option.map_map]
    rfl
  | text s | token kind s => cases place <;> simp [small, NamePlace.spell, get?]
  | _ => simp [small, get?]

theorem hasKey_small (v : Value) (name : String) :
    (small place v).hasKey name = v.hasKey name := by
  rw [hasKey, get?_small, Option.isSome_map, hasKey]

theorem getOrNull_small (v : Value) (name : String) :
    (small place v).getOrNull name = small (.ofKey (some name)) (v.getOrNull name) := by
  rw [getOrNull, get?_small, getOrNull]
  cases v.get? name <;> simp [small]

/-- The field of an element is put into small letters as a value of its own. -/
theorem field?_small (v : Value) (name : String) :
    (small place v).field? name = (v.field? name).map (small .plain) := by
  cases v with
  | element kind fields =>
    simp only [small, field?]
    generalize kind.fields.map Prod.fst = names
    induction names generalizing fields with
    | nil => simp
    | cons first names ih =>
      cases fields with
      | nil => simp [smallAll]
      | cons v fields =>
        simp only [smallAll, zip_cons_cons, lookup_cons]
        split
        · rfl
        · exact ih fields
  | text s | token kind s => cases place <;> simp [small, NamePlace.spell, field?]
  | _ => simp [small, field?]

@[simp] theorem text?_small_plain (v : Value) : (small .plain v).text? = v.text? := by
  cases v <;> simp [small, NamePlace.spell, text?]

theorem isEmpty_smallAll (place : NamePlace) (items : List Value) :
    (smallAll place items).isEmpty = items.isEmpty := by
  cases items <;> simp [smallAll]

@[simp] theorem holds_small_plain (v : Value) : (small .plain v).holds = v.holds := by
  cases v <;> simp [small, NamePlace.spell, holds, isEmpty_smallAll]

end Value

namespace Usage

open Value (small smallAll smallEntries)

section References

variable {place : NamePlace}

theorem baseName_of_text {v full : Value} {s : String} (hfull : fullName? v = some full)
    (htext : full.text? = some s) : baseName v = .ok (baseOf s) := by
  cases full with
  | text t | token kind t =>
    cases htext
    by_cases hs : s = ""
    · subst hs
      simp [baseName, hfull, Value.holds, baseOf, Text.before]
    · simp [baseName, hfull, Value.holds, hs, Value.text?]
  | _ => cases htext

theorem baseName_small (hplace : place ≠ .shown) (v : Value) :
    baseName (small place v) = baseName v := by
  cases v with
  | dict keys values =>
    have hsmall : fullName? (small place (.dict keys values)) =
        (fullName? (.dict keys values)).map (small .name) := by
      have hget := @Value.get?_small place (.dict keys values) "var_name"
      rw [small] at hget ⊢
      exact hget
    cases hfull : fullName? (.dict keys values) with
    | none =>
      rw [hfull] at hsmall
      rw [baseName, hsmall, baseName, hfull]
      rfl
    | some full =>
      rw [hfull] at hsmall
      cases full with
      | text s | token kind s =>
        rw [baseName_of_text hfull rfl, baseName_of_text hsmall rfl, baseOf_smallName]
      | _ =>
        rw [baseName, hsmall, baseName, hfull]
        simp [small, Value.holds, Value.text?, Value.isEmpty_smallAll]
  | text s | token kind s =>
    cases place with
    | shown => exact absurd rfl hplace
    | name =>
      rw [small, NamePlace.spell, baseName_of_text rfl rfl, baseName_of_text rfl rfl,
        baseOf_smallName]
    | _ => rfl
  | _ => rfl

theorem isReference_small (v : Value) : isReference (small place v) = isReference v :=
  Value.hasKey_small v "var_name"

theorem accesses_small (hplace : place ≠ .shown) (kinds : List Access) (reach : Reach) (v : Value) :
    accesses kinds reach (small place v) = accesses kinds reach v := by
  rw [accesses, baseName_small hplace, accesses]

theorem referenceAccesses_small (kinds : List Access) (reach : Reach) (v : Value) :
    referenceAccesses kinds reach (small .plain v) = referenceAccesses kinds reach v := by
  rw [referenceAccesses, isReference_small, accesses_small (by decide), referenceAccesses]

end References

theorem routineOf_small (v : Value) : routineOf (small .plain v) = routineOf v := by
  simp only [routineOf, Value.holds_small_plain, Value.text?_small_plain]

mutual

theorem expression_small (v : Value) : expression (small .plain v) = expression v := by
  cases v with
  | tree label ofRule children => simp only [small, expression, expressions_small]
  | tuple items =>
    cases items with
    | nil => rfl
    | cons op operands =>
      simp only [small, smallAll, NamePlace.inner, expression, Value.text?_small_plain]
      cases op.text? with
      | none => rfl
      | some op => exact operation_small op operands
  | dict keys values =>
    have hreference := @isReference_small .plain (.dict keys values)
    have haccesses := fun kinds reach => @accesses_small .plain (by decide) kinds reach
      (.dict keys values)
    simp only [small] at hreference haccesses
    simp only [small, expression, hreference, haccesses, enabling_small]
  | list items => simp only [small, NamePlace.inner, expression, expressions_small]
  | _ => rfl

theorem expressions_small :
    ∀ vs : List Value, expressions (smallAll .plain vs) = expressions vs
  | [] => rfl
  | v :: rest => by
    simp only [smallAll, expressions, expression_small, expressions_small]

theorem enabling_small :
    ∀ keys values : List Value, enabling keys (smallEntries keys values) = enabling keys values
  | [], [] => rfl
  | [], v :: values | key :: keys, [] => by simp [smallEntries, enabling]
  | key :: keys, v :: values => by
    simp only [smallEntries, enabling]
    split
    · rename_i hkey
      rw [eq_of_beq hkey]
      exact expression_small v
    · exact enabling_small keys values

theorem operation_small (op : String) :
    ∀ vs : List Value, operation op (smallAll .plain vs) = operation op vs
  | [] => rfl
  | [first] => by
    simp only [smallAll]
    unfold operation
    split <;> simp_all [expression_small, block_small]
  | [first, second] => by
    have hfirst := expression_small first
    have hblock := block_small first
    have hbranches := branches_small first
    have hchoices := choices_small first
    have htarget := fun kinds reach => referenceAccesses_small kinds reach first
    have hroutine := routineOf_small first
    have hsecond := expression_small second
    have hotherwise := block_small second
    have hsides := rightSides_small second
    have hcall := fun routine => call_small routine second
    simp only [smallAll]
    generalize small .plain first = first' at *
    generalize small .plain second = second' at *
    unfold operation
    split <;> simp_all
  | first :: second :: third :: rest => by
    simp only [smallAll]
    unfold operation
    split <;> simp_all [expression_small, block_small]

theorem block_small (v : Value) : block (small .plain v) = block v := by
  cases v with
  | list items | tuple items => simp only [small, NamePlace.inner, block, expressions_small]
  | _ => rfl

/-- Pairs of a condition and what depends on it, and of an operator and its operand. -/
theorem pair_small (v : Value) : branchesOf [small .plain v] = branchesOf [v] ∧
    choicesOf [small .plain v] = choicesOf [v] ∧
      rightSidesOf [small .plain v] = rightSidesOf [v] := by
  cases v with
  | tuple items | list items =>
    rcases items with _ | ⟨first, _ | ⟨second, _ | ⟨third, rest⟩⟩⟩
    case cons.cons.nil =>
      simp only [small, smallAll, NamePlace.inner, branchesOf, choicesOf, rightSidesOf,
        expression_small, block_small, and_self]
    all_goals exact ⟨rfl, rfl, rfl⟩
  | dict keys values =>
    rcases keys with _ | ⟨_, _ | ⟨_, _ | ⟨_, _⟩⟩⟩ <;> exact ⟨rfl, rfl, rfl⟩
  | _ => exact ⟨rfl, rfl, rfl⟩

theorem branches_small (v : Value) : branches (small .plain v) = branches v := by
  cases v with
  | list items | tuple items => simp only [small, NamePlace.inner, branches, branchesOf_small]
  | _ => rfl

theorem branchesOf_small : ∀ vs : List Value, branchesOf (smallAll .plain vs) = branchesOf vs
  | [] => rfl
  | v :: rest => by
    rw [smallAll, branchesOf_cons, branchesOf_cons v rest, branchesOf_small rest]
    exact congrArg (· ++ branchesOf rest) (pair_small v).1

theorem choices_small (v : Value) : choices (small .plain v) = choices v := by
  cases v with
  | list items | tuple items => simp only [small, NamePlace.inner, choices, choicesOf_small]
  | _ => rfl

theorem choicesOf_small : ∀ vs : List Value, choicesOf (smallAll .plain vs) = choicesOf vs
  | [] => rfl
  | v :: rest => by
    rw [smallAll, choicesOf_cons, choicesOf_cons v rest, choicesOf_small rest]
    exact congrArg (· ++ choicesOf rest) (pair_small v).2.1

theorem rightSides_small (v : Value) : rightSides (small .plain v) = rightSides v := by
  cases v with
  | list items | tuple items => simp only [small, NamePlace.inner, rightSides, rightSidesOf_small]
  | _ => rfl

theorem rightSidesOf_small : ∀ vs : List Value, rightSidesOf (smallAll .plain vs) = rightSidesOf vs
  | [] => rfl
  | v :: rest => by
    rw [smallAll, rightSidesOf_cons, rightSidesOf_cons v rest, rightSidesOf_small rest]
    exact congrArg (· ++ rightSidesOf rest) (pair_small v).2.2

theorem call_small (routine : Except Fault (Option Routine)) (v : Value) :
    call routine (small .plain v) = call routine v := by
  cases v with
  | list items | tuple items => simp only [small, NamePlace.inner, call, arguments_small]
  | _ => rfl

theorem arguments_small (routine : Option Routine) (place : Nat) :
    ∀ vs : List Value, arguments routine place (smallAll .plain vs) = arguments routine place vs
  | [] => rfl
  | v :: rest => by
    have hargument : argument? routine place (small .plain v) = argument? routine place v := by
      simp only [argument?, isReference_small, accesses_small (by decide : NamePlace.plain ≠ .shown)]
    simp only [smallAll, arguments, hargument, expression_small, arguments_small]

end

theorem step_of_four (first second third fourth : Value) (rest : List Value) :
    node .step (first :: second :: third :: fourth :: rest) = [.fault .missingMember] := by
  cases third with
  | element part fields =>
    cases part with
    | codeBlocks =>
      rcases fields with _ | ⟨_, _ | ⟨_, _ | ⟨_, _ | ⟨_, _⟩⟩⟩⟩ <;> rfl
    | _ => rfl
  | _ => rfl

/-- A step has its statements in three blocks. -/
theorem step_small (kind name v : Value) :
    node .step [small .plain kind, small .plain name, small .plain v] =
      node .step [kind, name, v] := by
  cases v with
  | element part fields =>
    cases part with
    | codeBlocks =>
      rcases fields with _ | ⟨enter, _ | ⟨active, _ | ⟨exit, _ | ⟨more, rest⟩⟩⟩⟩
      case cons.cons.cons.nil =>
        simp only [small, smallAll, node, block_small]
      all_goals rfl
    | _ => rfl
  | _ => rfl

mutual

theorem nodes_small (v : Value) : nodes (small .plain v) = nodes v := by
  cases v with
  | list items | tuple items => simp only [small, NamePlace.inner, nodes, nodesOf_small]
  | _ => rfl

theorem nodesOf_small : ∀ vs : List Value, nodesOf (smallAll .plain vs) = nodesOf vs
  | [] => rfl
  | v :: rest => by
    cases v with
    | element kind fields => simp only [small, smallAll, nodesOf, node_small, nodesOf_small]
    | _ => simp only [small, smallAll, NamePlace.spell, nodesOf, nodesOf_small]

theorem node_small (kind : Element) :
    ∀ fields : List Value, node kind (smallAll .plain fields) = node kind fields
  | [] => by cases kind <;> rfl
  | [first] => by
    have hbranches := nodeBranches_small first
    simp only [smallAll]
    cases kind <;> simp only [node, hbranches]
  | [first, second] => by
    have hcondition := expression_small second
    have hbody := nodes_small second
    simp only [smallAll]
    cases kind <;> simp only [node, hcondition, hbody]
  | [first, second, third] => by
    have hstep := step_small first second third
    simp only [smallAll]
    cases kind <;> first | exact hstep | rfl
  | first :: second :: third :: fourth :: rest => by
    simp only [smallAll]
    cases kind <;> first | rw [step_of_four, step_of_four] | rfl

theorem nodeBranches_small (v : Value) : nodeBranches (small .plain v) = nodeBranches v := by
  cases v with
  | list items | tuple items => simp only [small, NamePlace.inner, nodeBranches, nodeBranchesOf_small]
  | _ => rfl

theorem nodeBranchesOf_small :
    ∀ vs : List Value, nodeBranchesOf (smallAll .plain vs) = nodeBranchesOf vs
  | [] => rfl
  | v :: rest => by
    simp only [smallAll, nodeBranchesOf, nodes_small, nodeBranchesOf_small]

end

/-- What is found before any problem, without the problems. -/
def occurrences (found : List Finding) : List Occurrence :=
  found.filterMap Except.toOption

/-- The same variables are found in the same order, accessed in the same way. -/
def SameUses (found other : List Finding) : Prop :=
  List.Forall₂ Occurrence.Alike (occurrences found) (occurrences other)

namespace SameUses

variable {found other third : List Finding}

theorem of_eq (h : found = other) : SameUses found other := by
  subst h
  exact forall₂_same.mpr fun o _ => .refl o

theorem append {rest more : List Finding} (h : SameUses found other) (hrest : SameUses rest more) :
    SameUses (found ++ rest) (other ++ more) := by
  rw [SameUses, occurrences, occurrences, filterMap_append, filterMap_append]
  exact rel_append h hrest

theorem symm (h : SameUses found other) : SameUses other found :=
  h.flip.imp fun _ _ h => ⟨h.access.symm, fun p scope => (h.resolve p scope).symm⟩

theorem trans (h : SameUses found other) (h' : SameUses other third) : SameUses found third := by
  unfold SameUses at h h' ⊢
  generalize occurrences found = first at h
  generalize occurrences other = second at h h'
  generalize occurrences third = last at h'
  induction h generalizing last with
  | nil => exact h'
  | cons hfirst _ ih =>
    cases h' with
    | cons hfirst' hrest' =>
      refine .cons ⟨hfirst'.access.trans hfirst.access, fun p scope => ?_⟩ (ih _ hrest')
      exact (hfirst'.resolve p scope).trans (hfirst.resolve p scope)

theorem mem_occurrences {o : Occurrence} : o ∈ occurrences found ↔ .ok o ∈ found := by
  simp only [occurrences, mem_filterMap]
  constructor
  · rintro ⟨finding, hmem, hok⟩
    cases finding with
    | error problem => cases hok
    | ok o' =>
      cases hok
      exact hmem
  · intro hmem
    exact ⟨.ok o, hmem, rfl⟩

theorem covered (h : SameUses found other) : Covered found other := by
  have hall : ∀ o ∈ occurrences found, ∃ o' ∈ occurrences other, o.Alike o' := by
    unfold SameUses at h
    generalize occurrences found = first at h
    generalize occurrences other = second at h
    induction h with
    | nil => simp
    | cons hfirst _ ih =>
      intro o ho
      rcases mem_cons.mp ho with rfl | ho
      · exact ⟨_, mem_cons_self, hfirst⟩
      · obtain ⟨o', ho', halike⟩ := ih o ho
        exact ⟨o', mem_cons_of_mem _ ho', halike⟩
  intro o ho
  obtain ⟨o', ho', halike⟩ := hall o (mem_occurrences.mpr ho)
  exact ⟨o', mem_occurrences.mp ho', halike⟩

/-- Item by item the same is found in two lists. -/
theorem flatMap {find find' : Value → List Finding} {form : Value → Value}
    (h : ∀ v, SameUses (find v) (find' (form v))) (items : List Value) :
    SameUses (items.flatMap find) ((items.map form).flatMap find') := by
  induction items with
  | nil => exact .nil
  | cons v rest ih =>
    rw [map_cons, flatMap_cons, flatMap_cons]
    exact (h v).append ih

end SameUses

section Parts

variable {place : NamePlace}

/-- The findings in all items of a list, where `form` tells them of the items in small letters and
`find` of what else may stand in the place of the list. -/
def inForms (form find : Value → List Finding) : Value → List Finding
  | .list items | .tuple items => items.flatMap form
  | v => inItems find v

theorem inForms_small {find form : Value → List Finding} (place : NamePlace)
    (hplace : place ≠ .name ∧ place ≠ .shown)
    (h : ∀ v, SameUses (find v) (form (small place.inner v))) (v : Value) :
    SameUses (inItems find v) (inForms form find (small place v)) := by
  cases v with
  | list items | tuple items =>
    simp only [small, inItems, Value.elements, inForms, Value.smallAll_eq_map]
    exact .flatMap h items
  | text s | token kind s =>
    cases place with
    | name => exact absurd rfl hplace.1
    | shown => exact absurd rfl hplace.2
    | _ => exact .of_eq rfl
  | _ => exact .of_eq rfl

theorem inItems_small {find : Value → List Finding} (place : NamePlace)
    (hplace : place ≠ .name ∧ place ≠ .shown)
    (h : ∀ v, SameUses (find v) (find (small place.inner v))) (v : Value) :
    SameUses (inItems find v) (inItems find (small place v)) := by
  have hforms := inForms_small place hplace h v
  have hself : ∀ w, inForms find find w = inItems find w := fun w => by cases w <;> rfl
  rwa [hself] at hforms

theorem inCode_small {find : Value → List Finding} (h : ∀ v, find (small .plain v) = find v)
    (v : Value) : SameUses (inCode find v) (inCode find (small .plain v)) := by
  apply SameUses.of_eq
  simp only [inCode, Value.field?_small]
  cases v.field? "code" with
  | none => rfl
  | some code => simp only [Option.map_some, Value.holds_small_plain, h]

theorem code_small (v : Value) : SameUses (code v) (code (small .plain v)) := by
  cases v with
  | element kind fields =>
    cases kind with
    | moduleCode =>
      rcases fields with _ | ⟨sequences, _ | ⟨equations, _ | ⟨more, rest⟩⟩⟩
      case cons.cons.nil =>
        simp only [small, smallAll, code]
        exact (inItems_small .plain (by decide) (inCode_small nodes_small) sequences).append
          (inItems_small .plain (by decide) (inCode_small block_small) equations)
      all_goals exact .of_eq rfl
    | _ => exact .of_eq rfl
  | _ => exact .of_eq rfl

theorem strangeTail_uses (v w : Value) : SameUses (strangeTail v) (strangeTail w) := by
  unfold strangeTail
  cases v.shown <;> cases w.shown <;> exact .nil

theorem tail_small (hplace : place = .plain ∨ place = .name) (v : Value) :
    SameUses (tail v) (tail (small place v)) := by
  have hname : place ≠ .shown := by rcases hplace with rfl | rfl <;> decide
  cases v with
  | null => exact .of_eq rfl
  | tuple items =>
    apply SameUses.of_eq
    have hsame : small place (.tuple items) = small .plain (.tuple items) := by
      rcases hplace with rfl | rfl <;> rfl
    rw [hsame, tail, ← expression_small, small]
    rfl
  | text s | token kind s =>
    apply SameUses.of_eq
    rcases hplace with rfl | rfl
    · rfl
    · simp only [small, NamePlace.spell, tail, Text.lower_before_smallName]
  | dict keys values =>
    have hreference := @isReference_small place (.dict keys values)
    have haccesses := accesses_small hname [.read] .scopeThenProgram (.dict keys values)
    rw [small] at hreference haccesses ⊢
    simp only [tail, hreference, haccesses]
    split
    · exact .of_eq rfl
    · exact strangeTail_uses _ _
  | _ =>
    simp only [small, tail, isReference, Value.hasKey, Value.get?, Option.isSome_none,
      Bool.false_eq_true, ↓reduceIte]
    exact strangeTail_uses _ _

theorem assigned_small (v : Value) : SameUses (assigned v) (assigned (small .plain v)) := by
  cases v with
  | dict keys values =>
    have htail := @Value.getOrNull_small .plain (.dict keys values) "tail"
    rw [NamePlace.ofKey_tail] at htail
    rw [small] at htail ⊢
    simp only [assigned, htail]
    exact tail_small (.inr rfl) _
  | list items | tuple items => cases items <;> exact .of_eq rfl
  | _ => exact .of_eq rfl

mutual

/-- The body of an interaction reads the same variables in whatever letters they are written. -/
theorem body_small (place : NamePlace) : ∀ v : Value, SameUses (body v) (body (small place v))
  | .list items => by
    simp only [small, body]
    exact bodies_small place.inner items
  | .dict keys values => by
    have hkey := @Value.hasKey_small place (.dict keys values) "enable"
    have htail := @Value.getOrNull_small place (.dict keys values) "tail"
    have hassign := @Value.getOrNull_small place (.dict keys values) "assign"
    rw [NamePlace.ofKey_tail] at htail
    rw [NamePlace.ofKey_other "assign" (by decide)] at hassign
    rw [small] at hkey htail hassign ⊢
    simp only [body, hkey, htail, hassign]
    refine (SameUses.append ?_ (assigned_small _)).append (entries_small keys values)
    split
    · exact tail_small (.inr rfl) _
    · exact .nil
  | .tree label ofRule children => by
    simp only [small, body]
    split
    · exact strangeTail_uses _ _
    · exact bodies_small .plain children
  | .text _ | .token _ _ => by
    cases place <;> simp only [small, NamePlace.spell, body] <;> exact .nil
  | .tuple _ | .null | .bool _ | .int _ | .real _ | .moment _ | .simpleType _ | .typeDefault
  | .element _ _ => .nil

theorem bodies_small (place : NamePlace) :
    ∀ vs : List Value, SameUses (bodies vs) (bodies (smallAll place vs))
  | [] => .nil
  | v :: rest => by
    simp only [smallAll, bodies]
    exact (body_small place v).append (bodies_small place rest)

theorem entries_small :
    ∀ keys values : List Value, SameUses (bodies values) (bodies (smallEntries keys values))
  | _, [] => by simpa only [smallEntries] using .of_eq rfl
  | [], v :: values => by
    simp only [smallEntries, bodies]
    exact (body_small .plain v).append (entries_small [] values)
  | key :: keys, v :: values => by
    simp only [smallEntries, bodies]
    exact (body_small _ v).append (entries_small keys values)

end

theorem procedure_small (v : Value) : procedure (small .plain v) = procedure v := by
  simp only [procedure, Value.get?_small]
  cases v.get? "procedure_call" with
  | none => rfl
  | some called =>
    cases called with
    | dict keys values =>
      have hname := @Value.getOrNull_small .plain (.dict keys values) "name"
      have hargs := @Value.getOrNull_small .plain (.dict keys values) "args"
      rw [NamePlace.ofKey_other "name" (by decide)] at hname
      rw [NamePlace.ofKey_other "args" (by decide)] at hargs
      rw [small] at hname hargs
      rw [Option.map_some, NamePlace.ofKey_other "procedure_call" (by decide), small]
      simp only [hname, hargs, routineOf_small, call_small]
    | _ => rfl

theorem inProperties_small {find find' : Value → List Finding}
    (h : ∀ keys values, SameUses (find (.dict keys values)) (find' (small .plain (.dict keys values))))
    (v : Value) : SameUses (inProperties find v) (inProperties find' (small .plain v)) := by
  simp only [inProperties, Value.field?_small]
  cases v.field? "properties" with
  | none => exact .nil
  | some properties =>
    cases properties with
    | dict keys values =>
      have hdict := h keys values
      rw [small] at hdict
      exact hdict
    | list items | tuple items => cases items <;> exact .of_eq rfl
    | _ => exact .of_eq rfl

theorem tails_small (v : Value) : SameUses (inItems tail v) (inItems tail (small .names v)) :=
  inItems_small .names (by decide) (tail_small (.inr rfl)) v

theorem interactObject_small (v : Value) :
    SameUses (interactObject v) (interactObject (small .plain v)) := by
  refine inProperties_small (fun keys values => ?_) v
  simp only [Value.getOrNull_small, NamePlace.ofKey_tails,
    NamePlace.ofKey_other "body" (by decide), NamePlace.ofKey_other "procedure" (by decide)]
  refine SameUses.append (SameUses.append (tails_small _) (body_small .plain _)) (.of_eq ?_)
  exact (procedure_small _).symm

/-- What is found in a shown name by its form in small letters. A name that was not in small letters
is in no scope, and is found in the whole program only. -/
def shownForm : Value → List Finding
  | .token form s =>
    let base := Text.before '.' s
    if base == "" then []
    else [.ok ⟨base, .read, if form == "small" then .scopeThenProgram else .program⟩]
  | _ => []

/-- The occurrences in a graphic object whose shown names are given by their forms. -/
def graphObjectForm : Value → List Finding :=
  inProperties fun properties =>
    inForms shownForm shownVariable (properties.getOrNull "text_vars") ++
      inItems tail (properties.getOrNull "tails")

/-- The occurrences in graphics whose shown names are given by their forms. -/
def definitionForm (v : Value) : List Finding :=
  match v with
  | .null => []
  | .element .moduleDef [_, _, _, _, _, graphs, interactions] =>
    inForms graphObjectForm graphObject graphs ++ inItems interactObject interactions
  | _ => [.fault .missingMember]

/-- A name with capital letters is no key of a variable. -/
theorem find?_eq_none_of_not_small {scope : List Variable} {name : String}
    (h : Text.lower name ≠ name) : Variable.find? scope name = none := by
  refine List.find?_eq_none.mpr fun v _ hkey => h ?_
  rw [← eq_of_beq hkey, Variable.key, Text.lower_lower]

theorem picture_find?_lower (p : Picture) (name : String) :
    p.find? (Text.lower name) = p.find? name := by
  simp only [Picture.find?, beq_iff_eq, Text.lower_eq_empty, Text.lower_lower]

theorem namedRead_alike (s : String) :
    SameUses (namedRead (Text.before '.' s)) (shownForm (NamePlace.shown.spell .text s)) := by
  simp only [NamePlace.spell, shownForm, namedRead, Text.before_smallName, beq_iff_eq,
    Text.lower_eq_empty]
  split
  · exact .nil
  · refine .cons ⟨rfl, fun p scope => ?_⟩ .nil
    by_cases hsmall : Text.lower (Text.before '.' s) = Text.before '.' s
    · simp [Text.hasSmallBase, hsmall, resolve]
    · simp [Text.hasSmallBase, hsmall, resolve, find?_eq_none_of_not_small hsmall,
        picture_find?_lower]

theorem shownVariable_small (v : Value) :
    SameUses (shownVariable v) (shownForm (small .shown v)) := by
  cases v with
  | text s | token kind s => exact namedRead_alike s
  | _ => exact .nil

theorem graphObject_small (v : Value) :
    SameUses (graphObject v) (graphObjectForm (small .plain v)) := by
  refine inProperties_small (fun keys values => ?_) v
  simp only [Value.getOrNull_small, NamePlace.ofKey_tails, NamePlace.ofKey_text_vars]
  exact (inForms_small .showns (by decide) shownVariable_small _).append (tails_small _)

/-- Graphics find the same variables in whatever letters they are written, as long as it does not
change whether a shown name is in small letters. -/
theorem definition_small (v : Value) :
    SameUses (definition v) (definitionForm (small .plain v)) := by
  cases v with
  | element kind fields =>
    cases kind with
    | moduleDef =>
      rcases fields with
        _ | ⟨_, _ | ⟨_, _ | ⟨_, _ | ⟨_, _ | ⟨_, _ | ⟨graphs, _ | ⟨interactions, _ | ⟨_, _⟩⟩⟩⟩⟩⟩⟩⟩
      case cons.cons.cons.cons.cons.cons.cons.nil =>
        simp only [small, smallAll, definition, definitionForm]
        exact (inForms_small .plain (by decide) graphObject_small graphs).append
          (inItems_small .plain (by decide) interactObject_small interactions)
      all_goals exact .nil
    | _ => exact .nil
  | _ => exact .nil

/-- The variable of a scan group. -/
theorem group_small (connection isGlobal : Value) :
    group (small .plain connection) isGlobal = group connection isGlobal :=
  referenceAccesses_small _ _ connection

end Parts

end Usage

end SattLine
