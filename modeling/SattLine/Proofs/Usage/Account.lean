import Mathlib.Data.List.Perm.Basic
import SattLine.Proofs.Usage.Classified

/-!
Accounts of the variables of a name. Main statement: an account has one entry for every variable of
that name in the picture, in its modules and in the module types, if the name is given in small
letters; with a capital letter it finds nothing, and the variables of modules inside module types
are never found.
-/

namespace SattLine

open List

/-- Every variable of modules belongs to one with a body of its own, at some depth. -/
theorem Module.exists_inside_of_mem {v : Variable} : ∀ {modules : List Module},
    v ∈ allVariablesOf modules → ∃ info inner, Inside modules (.single info inner) ∧ v ∈ info.scope
  | .single info inner :: rest, h => by
    rw [allVariablesOf, allVariables] at h
    rcases mem_append.mp h with h | h
    · rcases mem_append.mp h with hown | hbelow
      · exact ⟨info, inner, .here mem_cons_self, hown⟩
      · obtain ⟨deeper, below, hm, hv⟩ := exists_inside_of_mem hbelow
        exact ⟨deeper, below, .single mem_cons_self hm, hv⟩
    · obtain ⟨other, below, hm, hv⟩ := exists_inside_of_mem h
      exact ⟨other, below, hm.cons, hv⟩
  | .frame info inner :: rest, h => by
    rw [allVariablesOf, allVariables] at h
    rcases mem_append.mp h with h | h
    · obtain ⟨deeper, below, hm, hv⟩ := exists_inside_of_mem h
      exact ⟨deeper, below, .framed mem_cons_self hm, hv⟩
    · obtain ⟨other, below, hm, hv⟩ := exists_inside_of_mem h
      exact ⟨other, below, hm.cons, hv⟩
  | .typed _ :: rest, h | .stray _ :: rest, h => by
    rw [allVariablesOf, allVariables, nil_append] at h
    obtain ⟨other, below, hm, hv⟩ := exists_inside_of_mem h
    exact ⟨other, below, hm.cons, hv⟩

namespace Picture

/-- The variable is declared in the picture, in a module at any depth below it, or in a module
type. -/
inductive Declares (p : Picture) (v : Variable) : Prop
  | picture (hv : v ∈ p.locals)
  | module {info inner} (hm : Module.Inside p.submodules (.single info inner)) (hv : v ∈ info.scope)
  | type {type} (ht : type ∈ p.types) (hv : v ∈ type.scope)

/-- The variable is declared in a module that stands at any depth inside a module type. -/
def DeclaresInside (p : Picture) (v : Variable) : Prop :=
  ∃ type ∈ p.types, ∃ info inner, Module.Inside type.submodules (.single info inner) ∧
    v ∈ info.scope

variable {p : Picture} {v : Variable}

theorem findable_eq (p : Picture) :
    p.findable = p.locals ++ Module.allVariablesOf p.submodules ++ p.types.flatMap TypeDef.scope := by
  have htypes : (p.types.flatMap (TypeDef.ownDeclarations [])).map Declaration.declared =
      p.types.flatMap TypeDef.scope := by
    rw [map_flatMap]
    congr 1
    funext type
    simp [TypeDef.ownDeclarations, TypeDef.scope, Declaration.parametersAt, Declaration.localsAt,
      Function.comp_def]
  simp [findable, moduleDeclarations, htypes, Module.declarationsOf_declared,
    Declaration.localsAt, Function.comp_def]

theorem mem_findable : v ∈ p.findable ↔ p.Declares v := by
  rw [findable_eq, mem_append, mem_append, mem_flatMap]
  constructor
  · rintro ((hv | hv) | ⟨type, ht, hv⟩)
    · exact .picture hv
    · obtain ⟨info, inner, hm, hv⟩ := Module.exists_inside_of_mem hv
      exact .module hm hv
    · exact .type ht hv
  · rintro (hv | ⟨hm, hv⟩ | ⟨ht, hv⟩)
    · exact .inl (.inl hv)
    · exact .inl (.inr (hm.scope_subset hv))
    · exact .inr ⟨_, ht, hv⟩

/-- What can be found and what modules inside module types declare is all there is. -/
theorem findable_append_perm (p : Picture) :
    (p.findable ++ p.types.flatMap fun type => Module.allVariablesOf type.submodules).Perm
      p.allVariables := by
  have htypes := flatMap_append_perm p.types TypeDef.scope fun type =>
    Module.allVariablesOf type.submodules
  rw [findable_eq, append_assoc (p.locals ++ _), allVariables, append_assoc _ p.locals]
  exact (htypes.append_left _).trans perm_append_comm

end Picture

namespace Usage

/-- The text of an account: a heading that counts the entries, and the lines of each. -/
def accountText (name : String) (entries : List (List String)) : String :=
  if entries.isEmpty then "No variables named " ++ Text.quoted name ++ " found."
  else "\n".intercalate <| ("Usage report for variable name " ++ Text.quoted name ++ " (" ++
    toString entries.length ++ " declaration(s)):") :: entries.flatten

theorem account_eq (p : Picture) (marks : Marks) (name : String) :
    account p marks name = accountText name
      (((p.findable.filter fun v => v.key == name).zipIdx 1).map fun (v, number) =>
        accountOf marks number v) := by
  unfold account accountText
  generalize p.findable.filter _ = found
  cases found with
  | nil => rfl
  | cons v rest => simp [flatMap_def]

/-- Whatever uses are marked, an account has one entry for each variable that the picture, a module
below it or a module type declares under the given name, if the name is in small letters, and no
other. The variables of modules inside module types are not among them. -/
theorem account_lists_declarations {value : Value} {p : Picture} {first : Marks}
    (hread : value.toPicture.run {} = .ok (p, first)) (marks : Marks) (name : String) :
    ∃ listed : List Variable, listed.Nodup ∧
      accountFor p marks (.text name) = .ok (accountText name
        ((listed.zipIdx 1).map fun (v, number) => accountOf marks number v)) ∧
      (∀ v, v ∈ listed ↔ p.Declares v ∧ v.key = Text.lower name ∧ Text.lower name = name) ∧
      ∀ v, p.DeclaresInside v → v ∉ listed := by
  have hids := (Value.toPicture_declares value hread).nodup
  have hnodup := ((p.findable_append_perm.map Variable.id).nodup_iff.mpr hids).of_map
  obtain ⟨hfindable, -, happart⟩ := nodup_append.mp hnodup
  refine ⟨p.findable.filter fun v => v.key == name, hfindable.filter _, ?_, fun v => ?_, ?_⟩
  · exact congrArg Except.ok (account_eq p marks name)
  · rw [mem_filter, Picture.mem_findable, beq_iff_eq]
    constructor
    · rintro ⟨hv, rfl⟩
      have hsmall : Text.lower v.key = v.key := Text.lower_lower v.name
      exact ⟨hv, hsmall.symm, hsmall⟩
    · rintro ⟨hv, hkey, hsmall⟩
      exact ⟨hv, hkey.trans hsmall⟩
  · rintro v ⟨type, ht, info, inner, hm, hv⟩ hlisted
    have hinside : v ∈ p.types.flatMap fun type => Module.allVariablesOf type.submodules :=
      mem_flatMap.mpr ⟨type, ht, hm.scope_subset hv⟩
    exact happart v (mem_of_mem_filter hlisted) v hinside rfl

/-! A picture with a variable `Tank`, and a module type with a module that has a variable `tank`. -/

def tanksValue : Value :=
  .element .basePicture [headerNamed "Plant", .text "BasePicture", .null, .list [],
    .list [.element .typeDef [.text "Pump", .null, .list [], .list [],
      .list [.element .singleModule [headerNamed "Cell", .null, .null, .list [],
        .list [integerNamed "tank"], .list [], .null, .list []]],
      .null, .null, .list [], .null, .bool false, .null, .null]],
    .list [integerNamed "Tank"], .list [], .null, .null, .null, .null, .null]

def tankCell : SingleInfo :=
  ⟨plainHeader "Cell", .null, .null, [], [integerVariable 0 "tank"], .null, [], []⟩

def tankPump : TypeDef :=
  ⟨"Pump", .null, [], [], [.single tankCell []], .null, .null, [], .null, .bool false, .null, .null,
    []⟩

def tanksPicture : Picture :=
  ⟨plainHeader "Plant", .text "BasePicture", .null, [], [tankPump], [integerVariable 1 "Tank"], [],
    .null, .null, .null, .null, []⟩

def tanksMarks : Marks :=
  ⟨#[{}, {}]⟩

theorem tanks_read : tanksValue.toPicture.run {} = .ok (tanksPicture, tanksMarks) := by
  rfl

theorem tanks_declared : tanksPicture.Declares (integerVariable 1 "Tank") ∧
    tanksPicture.DeclaresInside (integerVariable 0 "tank") :=
  ⟨.picture mem_cons_self, tankPump, mem_cons_self, tankCell, [],
    .here mem_cons_self, mem_cons_self⟩

theorem tank_listed : ∃ listed : List Variable,
    accountFor tanksPicture tanksMarks (.text "tank") = .ok (accountText "tank"
      ((listed.zipIdx 1).map fun (v, number) => accountOf tanksMarks number v)) ∧
    integerVariable 1 "Tank" ∈ listed ∧ integerVariable 0 "tank" ∉ listed := by
  obtain ⟨listed, -, haccount, hmem, hinside⟩ :=
    account_lists_declarations tanks_read tanksMarks "tank"
  refine ⟨listed, haccount, (hmem _).mpr ⟨tanks_declared.1, ?_, ?_⟩, hinside _ tanks_declared.2⟩
  · decide
  · decide

/-- `Tank` is not found under its own name, and under that name in small letters one of the two
variables is. -/
theorem capital_tank_not_listed :
    (∃ issues, (analyze tanksPicture tanksMarks).1 = .ok issues ∧
      issues.map (fun issue => (issue.kind, issue.subject.id)) = [(.unused, 1)]) ∧
      accountFor tanksPicture (analyze tanksPicture tanksMarks).2 (.text "Tank") =
        .ok "No variables named 'Tank' found." ∧
      accountFor tanksPicture (analyze tanksPicture tanksMarks).2 (.text "tank") =
        .ok ("Usage report for variable name 'tank' (1 declaration(s)):\n" ++
          "- [1] Decl: type=integer, const=False, state=False\n" ++
          "    Summary: read=False, written=False\n    No recorded usage locations.") := by
  refine ⟨analyze_returns (by decide), ?_, ?_⟩
  · decide +kernel
  · decide +kernel

end Usage

end SattLine
