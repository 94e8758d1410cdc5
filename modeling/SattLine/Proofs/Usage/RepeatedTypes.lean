import SattLine.Proofs.Usage.Classified

/-!
Types that are declared more than once. Main statement: the report on them has one issue for each
type, built-in and record types apart, of which there are two or more declarations, in the order in
which the types first occur; it tells where the first of them is, how many there are and where all
the others are.
-/

namespace SattLine

open List

namespace Module

mutual

/-- The modules with a body of their own at and below a module, each in front of those inside it,
with their paths. -/
def singlesOf (path : List String) : Module → List (List String × SingleInfo)
  | .single info inner =>
    (path ++ [info.header.name], info) :: singlesIn (path ++ [info.header.name]) inner
  | .frame info inner => singlesIn (path ++ [info.header.name]) inner
  | .typed _ => []
  | .stray _ => []

def singlesIn (path : List String) : List Module → List (List String × SingleInfo)
  | [] => []
  | m :: rest => singlesOf path m ++ singlesIn path rest

end

/-- The parameters and then the local variables of a body. -/
def declaredAt (path : List String) (parameters locals : List Variable) : List Declaration :=
  parameters.map (⟨path, .parameter, ·⟩) ++ locals.map (⟨path, .localVariable, ·⟩)

/-- The declarations of modules are those of the modules with a body, one after the other. -/
theorem declarationsOf_eq : ∀ (modules : List Module) (path : List String),
    declarationsOf path modules =
      (singlesIn path modules).flatMap fun (place, info) => declaredAt place info.parameters info.locals
  | [], _ => rfl
  | .single info inner :: rest, path => by
    rw [declarationsOf, declarations, singlesIn, singlesOf, declarationsOf_eq inner,
      declarationsOf_eq rest, flatMap_append, flatMap_cons]
    rfl
  | .frame info inner :: rest, path => by
    rw [declarationsOf, declarations, singlesIn, singlesOf, declarationsOf_eq inner,
      declarationsOf_eq rest, flatMap_append]
  | .typed _ :: rest, path | .stray _ :: rest, path => by
    rw [declarationsOf, declarations, singlesIn, singlesOf, declarationsOf_eq rest,
      nil_append, nil_append]

end Module

/-- The declarations whose types are not built in. -/
def Declaration.compound (ds : List Declaration) : List Declaration :=
  ds.filter fun d => !d.declared.type.isSimple

/-- The declarations whose types are not built in, in the order of the program: of the picture, of
its modules from the outside in, and of the module types in its own file. -/
def Picture.compoundDeclarations (p : Picture) : List Declaration :=
  let root := [p.header.name]
  let own := p.types.filter fun type => (p.isOwnFile type.originFile).toOption == some true
  Declaration.compound (Module.declaredAt root [] p.locals ++
    ((Module.singlesIn root p.submodules).flatMap fun (path, info) =>
      Module.declaredAt path info.parameters info.locals) ++
    own.flatMap fun type => Module.declaredAt (root ++ [type.label]) type.parameters type.locals)

namespace Usage

open Walk
open Declaration (compound)

/-- The type of a variable, in small letters. -/
def typeKey (v : Variable) : String :=
  Text.lower v.type.text

/-- How many declarations there are before the first of a type. -/
def typeRank (ds : List Declaration) (key : String) : Nat :=
  (ds.map fun d => typeKey d.declared).idxOf key

/-- The issue of a type that is declared first at one place and again at others. -/
def repetition (first : Declaration) (rest : List Declaration) : Issue where
  kind := .repeatedType
  path := first.path
  subject := first.declared
  role := some first.role.name
  count := some (rest.length + 1)
  others := some (rest.map fun d => (d.path, d.role.name))

section Repeated

variable {p : Picture} {ds : List Declaration} {issue : Issue}

theorem ownTypes_eq : ∀ {types : List TypeDef},
    (∀ type ∈ types, ∃ own, p.isOwnFile type.originFile = .ok own) → ownTypes p types =
      .ok (types.filter fun type => (p.isOwnFile type.originFile).toOption == some true)
  | [], _ => rfl
  | type :: rest, h => by
    obtain ⟨⟨own, hown⟩, hrest⟩ := forall_mem_cons.mp h
    rw [ownTypes, ownTypes_eq hrest, filter_cons, hown]
    cases own <;> rfl

theorem repeated_eq_some_iff : repeated ds = some issue ↔
    ∃ first rest, ds = first :: rest ∧ rest ≠ [] ∧ issue = repetition first rest := by
  rcases ds with _ | ⟨first, _ | ⟨second, rest⟩⟩
  · simp [repeated]
  · simp [repeated]
  · constructor
    · intro h
      cases h
      exact ⟨first, second :: rest, rfl, by simp, rfl⟩
    · rintro ⟨_, _, heq, -, rfl⟩
      cases heq
      rfl

/-- The declarations of one type, in order. -/
def ofType (key : String) (ds : List Declaration) : List Declaration :=
  ds.filter fun d => typeKey d.declared == key

theorem typeKey_of_repeated {key : String} (h : repeated (ofType key ds) = some issue) :
    typeKey issue.subject = key := by
  obtain ⟨first, rest, hds, -, rfl⟩ := repeated_eq_some_iff.mp h
  have hfirst : first ∈ ofType key ds := hds ▸ mem_cons_self
  exact eq_of_beq (mem_filter.mp hfirst).2

/-- The types in the order of their first declarations, records apart, with an issue on each that
has one. -/
theorem repeatedTypes_eq (p : Picture) (ds : List Declaration) : repeatedTypes p ds =
    (((compound ds).map fun d => typeKey d.declared).eraseDups.filter fun key =>
      !p.recordKeys.contains key).filterMap fun key => repeated (ofType key (compound ds)) := by
  unfold repeatedTypes groupBy
  simp only [filter_map, filterMap_map]
  rfl

theorem mem_repeatedTypes : issue ∈ repeatedTypes p ds ↔ ∃ key first rest, key ∉ p.recordKeys ∧
    ofType key (compound ds) = first :: rest ∧ rest ≠ [] ∧ issue = repetition first rest := by
  simp only [repeatedTypes_eq, mem_filterMap, repeated_eq_some_iff]
  constructor
  · rintro ⟨key, hkey, first, rest, hds, hrest, rfl⟩
    have hrecord := (mem_filter.mp hkey).2
    exact ⟨key, first, rest, by simpa using hrecord, hds, hrest, rfl⟩
  · rintro ⟨key, first, rest, hrecord, hds, hrest, rfl⟩
    refine ⟨key, mem_filter.mpr ⟨?_, by simpa using hrecord⟩, first, rest, hds, hrest, rfl⟩
    have hfirst : first ∈ ofType key _ := hds ▸ mem_cons_self
    obtain ⟨hmem, hkey⟩ := mem_filter.mp hfirst
    rw [mem_eraseDups, ← eq_of_beq hkey]
    exact mem_map_of_mem hmem

theorem repeatedTypes_pairwise (p : Picture) (ds : List Declaration) :
    (repeatedTypes p ds).Pairwise fun a b =>
      typeRank (compound ds) (typeKey a.subject) < typeRank (compound ds) (typeKey b.subject) := by
  rw [repeatedTypes_eq]
  refine List.Pairwise.filterMap _ ?_ ((eraseDups_pairwise_idxOf _).filter _)
  intro key key' hlt issue hissue issue' hissue'
  rwa [typeKey_of_repeated hissue, typeKey_of_repeated hissue']

end Repeated

def variableOfRecord (id : Nat) (name type : String) : Variable :=
  { integerVariable id name with type := .record type }

def motorUnit : SingleInfo :=
  ⟨plainHeader "Unit", .null, .null, [variableOfRecord 2 "Drive" "MOTOR"],
    [variableOfRecord 3 "Inlet" "Tank", variableOfRecord 4 "Outlet" "tank"], .null, [], []⟩

def motorPump : TypeDef :=
  ⟨"Pump", .null, [], [variableOfRecord 0 "Shaft" "motor"], [], .null, .null, [], .null, .bool false,
    .null, .null, []⟩

def motorPicture : Picture :=
  ⟨plainHeader "Plant", .text "BasePicture", .null,
    [.element .dataType [.text "TANK", .null, .null, .list []]], [motorPump],
    [variableOfRecord 1 "Main" "Motor"], [.frame area [.single motorUnit []]], .null, .null, .null,
    .null, []⟩

end Usage

end SattLine
