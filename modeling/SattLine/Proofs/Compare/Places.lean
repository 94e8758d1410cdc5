import Mathlib.Data.List.Lex
import SattLine.Compare.Search
import SattLine.Proofs.Steps

/-!
Places in the tree of modules. Main statement: a search for a name finds every module of that name,
once for each place where it stands and in the order of the places, with the names on the way to it.
-/

namespace SattLine.Compare

open List

/-- The nodes right below a node. Below a picture there are its modules and then its types. -/
def nodesBelow : Value → List Value
  | .element .singleModule [_, _, _, _, _, .list submodules, _, _]
  | .element .frameModule [_, _, .list submodules, _, _]
  | .element .typeDef [_, _, _, _, .list submodules, _, _, _, _, _, _, _] => submodules
  | .element .basePicture [_, _, _, _, .list types, _, .list submodules, _, _, _, _, _] =>
    submodules ++ types
  | _ => []

/-- The name in the header of a module. -/
def invokedAs? (header : Value) : Option String :=
  (header.field? "name").bind Value.text?

/-- What a node is called on the way to the modules below it. -/
def called? : Value → Option String
  | .element .typeDef (name :: _) => name.text?.map ("ModuleTypeDef:" ++ ·)
  | .element .basePicture (_ :: name :: _) => name.text?
  | v => (v.field? "header").bind invokedAs?

/-- The way down from a node: the numbers of the nodes among those right below the last one, the
names of all nodes on the way, and the node where it ends. -/
inductive Leads : Value → List Nat → Path → Value → Prop
  | here {v name} (hname : called? v = some name) : Leads v [] [name] v
  | down {v child m name place names i} (hname : called? v = some name)
      (hchild : (nodesBelow v)[i]? = some child) (h : Leads child place names m) :
      Leads v (i :: place) (name :: names) m

/-- The node is a module with a body of its own and has the name that is looked for. -/
def Matches (target : String) (m : Value) : Prop :=
  m.isElement .singleModule = true ∧ ∃ name, called? m = some name ∧ Text.sameName name target = true

/-- Modules with readable names, at all depths. -/
inductive ModuleTree : Value → Prop
  | single {header definition dateCode parameters locals code mappings : Value}
      {submodules : List Value} {name : String} (hname : invokedAs? header = some name)
      (hbelow : ∀ m ∈ submodules, ModuleTree m) :
      ModuleTree (.element .singleModule [header, definition, dateCode, parameters, locals,
        .list submodules, code, mappings])
  | frame {header dateCode definition code : Value} {submodules : List Value} {name : String}
      (hname : invokedAs? header = some name) (hbelow : ∀ m ∈ submodules, ModuleTree m) :
      ModuleTree (.element .frameModule [header, dateCode, .list submodules, definition, code])
  | typed {fields : List Value} : ModuleTree (.element .typeInstance fields)

/-- A module type with modules in it. -/
inductive TypeTree : Value → Prop
  | mk {typeName dateCode parameters locals definition code mappings group isGlobal file lib : Value}
      {submodules : List Value} {name : String} (hname : typeName.text? = some name)
      (hbelow : ∀ m ∈ submodules, ModuleTree m) :
      TypeTree (.element .typeDef [typeName, dateCode, parameters, locals, .list submodules,
        definition, code, mappings, group, isGlobal, file, lib])

/-- A picture with modules and module types in it. -/
inductive PictureTree : Value → Prop
  | mk {header pictureName position records locals definition code file lib tree : Value}
      {types submodules : List Value} {name : String} (hname : pictureName.text? = some name)
      (hbelow : ∀ m ∈ submodules, ModuleTree m) (htypes : ∀ type ∈ types, TypeTree type) :
      PictureTree (.element .basePicture [header, pictureName, position, records, .list types,
        locals, .list submodules, definition, code, file, lib, tree])

/-- A place below a node, the names on the way to it and what is there. -/
structure Hit where
  place : List Nat
  names : Path
  node : Value

namespace Hit

/-- The same hit, seen from further up. -/
def under (i : Nat) (hit : Hit) : Hit :=
  { hit with place := i :: hit.place }

/-- The same hit below a node of a name. -/
def named (name : String) (hit : Hit) : Hit :=
  { hit with names := name :: hit.names }

/-- The hit as a search gives it that has come along a path. -/
def found (path : Path) (hit : Hit) : Found :=
  (some (path ++ hit.names), hit.node)

theorem found_named (path : Path) (name : String) (hits : List Hit) :
    (hits.map (named name)).map (found path) = hits.map (found (path ++ [name])) := by
  simp [found, named]

theorem found_root (name : String) (hits : List Hit) :
    ((hits.map (named name)).map fun hit => ((some hit.names, hit.node) : Found)) =
      hits.map (found [name]) := by
  simp [found, named]

end Hit

section Places

variable {target name : String} {path : Path} {v m header : Value} {nodes submodules : List Value}
  {hit : Hit} {hits : List Hit}

/-- The hits are those of a place among nodes that are numbered from a start on, in order. -/
structure HitsAmong (target : String) (start : Nat) (nodes : List Value) (hits : List Hit) :
    Prop where
  ordered : hits.Pairwise fun a b => a.place < b.place
  mem_iff : ∀ hit, hit ∈ hits ↔ (∃ i child place, hit.place = (start + i) :: place ∧
    nodes[i]? = some child ∧ Leads child place hit.names hit.node) ∧ Matches target hit.node

/-- The hits are those at and below a node, in order. -/
structure HitsFrom (target : String) (v : Value) (hits : List Hit) : Prop where
  ordered : hits.Pairwise fun a b => a.place < b.place
  mem_iff : ∀ hit, hit ∈ hits ↔ Leads v hit.place hit.names hit.node ∧ Matches target hit.node

/-- A search that comes to the node along a path finds what there is at and below it. -/
def Searched (target : String) (v : Value) : Prop :=
  ∀ path, ∃ hits, searchIn target (some path) v = .ok (hits.map (Hit.found path)) ∧
    HitsFrom target v hits

theorem HitsAmong.nil (target : String) (start : Nat) : HitsAmong target start [] [] :=
  ⟨.nil, by simp⟩

theorem HitsAmong.single (h : HitsFrom target v hits) (start : Nat) :
    HitsAmong target start [v] (hits.map (Hit.under start)) where
  ordered := pairwise_map.mpr (h.ordered.imp fun hlt => cons_lt_cons_iff.mpr (.inr ⟨rfl, hlt⟩))
  mem_iff hit := by
    rw [mem_map]
    constructor
    · rintro ⟨first, hmem, rfl⟩
      obtain ⟨hleads, hmatch⟩ := (h.mem_iff first).mp hmem
      exact ⟨⟨0, v, first.place, rfl, rfl, hleads⟩, hmatch⟩
    · rintro ⟨⟨i, child, place, hplace, hchild, hleads⟩, hmatch⟩
      obtain ⟨rfl, rfl⟩ : i = 0 ∧ v = child := by simpa [List.getElem?_singleton] using hchild
      refine ⟨⟨place, hit.names, hit.node⟩, (h.mem_iff _).mpr ⟨hleads, hmatch⟩, ?_⟩
      cases hit
      cases hplace
      rfl

/-- The hits among two lists of nodes that are numbered one after the other. -/
theorem HitsAmong.append {start : Nat} {more : List Value} {others : List Hit}
    (h : HitsAmong target start nodes hits)
    (hmore : HitsAmong target (start + nodes.length) more others) :
    HitsAmong target start (nodes ++ more) (hits ++ others) where
  ordered := by
    refine pairwise_append.mpr ⟨h.ordered, hmore.ordered, fun a ha b hb => ?_⟩
    obtain ⟨⟨i, _, place, hplace, hchild, -⟩, -⟩ := (h.mem_iff a).mp ha
    obtain ⟨⟨j, _, other, hother, -⟩, -⟩ := (hmore.mem_iff b).mp hb
    have hi := (List.getElem?_eq_some_iff.mp hchild).1
    rw [hplace, hother]
    exact cons_lt_cons_iff.mpr (.inl (by omega))
  mem_iff hit := by
    rw [mem_append, h.mem_iff, hmore.mem_iff, ← or_and_right]
    refine and_congr_left fun _ => ?_
    constructor
    · rintro (⟨i, child, place, hplace, hchild, hleads⟩ | ⟨i, child, place, hplace, hchild, hleads⟩)
      · have hi := (List.getElem?_eq_some_iff.mp hchild).1
        exact ⟨i, child, place, hplace, by rwa [List.getElem?_append_left hi], hleads⟩
      · refine ⟨nodes.length + i, child, place, by rw [hplace, Nat.add_assoc], ?_, hleads⟩
        rwa [List.getElem?_append_right (by omega), Nat.add_sub_cancel_left]
    · rintro ⟨i, child, place, hplace, hchild, hleads⟩
      by_cases hi : i < nodes.length
      · rw [List.getElem?_append_left hi] at hchild
        exact .inl ⟨i, child, place, hplace, hchild, hleads⟩
      · rw [List.getElem?_append_right (by omega)] at hchild
        refine .inr ⟨i - nodes.length, child, place, ?_, hchild, hleads⟩
        rw [hplace]
        congr 1
        omega

theorem searchAll_hits (h : ∀ m ∈ nodes, Searched target m) (path : Path) (start : Nat) :
    ∃ hits, searchAll target (some path) nodes = .ok (hits.map (Hit.found path)) ∧
      HitsAmong target start nodes hits := by
  induction nodes generalizing start with
  | nil => exact ⟨[], rfl, .nil target start⟩
  | cons m rest ih =>
    obtain ⟨hm, hrest⟩ := forall_mem_cons.mp h
    obtain ⟨first, hfirst, hhits⟩ := hm path
    obtain ⟨others, hothers, hamong⟩ := ih hrest (start + 1)
    refine ⟨_, ?_, (HitsAmong.single hhits start).append hamong⟩
    rw [searchAll, hfirst, hothers, map_append, map_map]
    rfl

/-- The hits at and below a node: the node itself, if it matches, and those further down. -/
theorem HitsFrom.of_below {own : List Hit} (hname : called? v = some name)
    (hown : own = [⟨[], [name], v⟩] ∧ Matches target v ∨ own = [] ∧ ¬ Matches target v)
    (h : HitsAmong target 0 (nodesBelow v) hits) : HitsFrom target v (own ++ hits.map (Hit.named name)) where
  ordered := by
    have hbelow : (hits.map (Hit.named name)).Pairwise fun a b => a.place < b.place :=
      pairwise_map.mpr h.ordered
    rcases hown with ⟨rfl, -⟩ | ⟨rfl, -⟩
    · refine pairwise_cons.mpr ⟨fun b hb => ?_, hbelow⟩
      obtain ⟨deeper, hdeeper, rfl⟩ := mem_map.mp hb
      obtain ⟨⟨i, _, place, hplace, -⟩, -⟩ := (h.mem_iff deeper).mp hdeeper
      rw [Hit.named, hplace]
      exact nil_lt_cons _ _
    · exact hbelow
  mem_iff hit := by
    have hself : hit ∈ own ↔ hit = ⟨[], [name], v⟩ ∧ Matches target v := by
      rcases hown with ⟨rfl, hmatch⟩ | ⟨rfl, hmatch⟩ <;> simp [hmatch]
    rw [mem_append, hself, mem_map]
    constructor
    · rintro (⟨rfl, hmatch⟩ | ⟨deeper, hdeeper, rfl⟩)
      · exact ⟨.here hname, hmatch⟩
      · obtain ⟨⟨i, child, place, hplace, hchild, hleads⟩, hmatch⟩ := (h.mem_iff deeper).mp hdeeper
        rw [Nat.zero_add] at hplace
        refine ⟨?_, hmatch⟩
        rw [Hit.named, hplace]
        exact .down hname hchild hleads
    · rintro ⟨hleads, hmatch⟩
      obtain ⟨place, names, node⟩ := hit
      cases hleads with
      | here hown =>
        cases hname.symm.trans hown
        exact .inl ⟨rfl, hmatch⟩
      | @down _ child _ _ place names i hown hchild hleads =>
        cases hname.symm.trans hown
        refine .inr ⟨⟨i :: place, names, node⟩, (h.mem_iff _).mpr ⟨?_, hmatch⟩, rfl⟩
        exact ⟨i, child, place, by rw [Nat.zero_add], hchild, hleads⟩

/-- A node that is no module with a body of its own, with nodes below it that are searched. -/
theorem Searched.of_below (hname : called? v = some name)
    (hkind : v.isElement .singleModule = false) (h : ∀ m ∈ nodesBelow v, Searched target m)
    (hsearch : ∀ path, searchIn target (some path) v =
      searchAll target (some (path ++ [name])) (nodesBelow v)) : Searched target v := by
  intro path
  obtain ⟨hits, hhits, hamong⟩ := searchAll_hits h (path ++ [name]) 0
  refine ⟨_, ?_, HitsFrom.of_below hname (.inr ⟨rfl, ?_⟩) hamong⟩
  · rw [hsearch, hhits, nil_append, Hit.found_named]
  · rintro ⟨hsingle, -⟩
    cases hkind.symm.trans hsingle

theorem field_of_invokedAs? (h : invokedAs? header = some name) :
    ∃ v, header.field "name" = .ok v ∧ v.text? = some name := by
  obtain ⟨v, hv, htext⟩ := Option.bind_eq_some_iff.mp h
  exact ⟨v, by rw [Value.field, hv], htext⟩

theorem ModuleTree.searched (h : ModuleTree v) (target : String) : Searched target v := by
  induction h with
  | @single header definition dateCode parameters locals code mappings submodules name hname _ ih =>
    intro path
    obtain ⟨hits, hhits, hamong⟩ := searchAll_hits ih (path ++ [name]) 0
    obtain ⟨nameValue, hfield, htext⟩ := field_of_invokedAs? hname
    have hread : nameValue.name = .ok name := by rw [Value.name, htext]
    rw [searchIn, hfield, ok_bind, hread, ok_bind]
    -- The node comes before what is below it, so its hit is put in front.
    by_cases hsame : Text.sameName name target = true
    · refine ⟨_, ?_, HitsFrom.of_below hname (.inl ⟨rfl, rfl, name, hname, hsame⟩) hamong⟩
      simp only [map_append, Hit.found_named, hsame, if_true, Option.map_some, searchBelow,
        hhits]
      rfl
    · refine ⟨_, ?_, HitsFrom.of_below hname (.inr ⟨rfl, ?_⟩) hamong⟩
      · simp only [nil_append, Hit.found_named, hsame, Option.map_some, searchBelow, hhits]
        rfl
      · rintro ⟨-, own, hown, hmatch⟩
        cases hname.symm.trans hown
        exact hsame hmatch
  | frame hname _ ih =>
    obtain ⟨nameValue, hfield, htext⟩ := field_of_invokedAs? hname
    refine .of_below hname rfl ih fun path => ?_
    rw [searchIn, hfield, ok_bind, Option.bind_some, htext, Option.map_some, searchBelow]
    rfl
  | @typed fields =>
    intro path
    refine ⟨[], by simp [searchIn], .nil, fun hit => ?_⟩
    refine iff_of_false not_mem_nil ?_
    rintro ⟨hleads, hmatch⟩
    have hbelow : nodesBelow (.element .typeInstance fields) = [] := by simp [nodesBelow]
    obtain ⟨place, names, node⟩ := hit
    cases hleads with
    | here _ => cases hmatch.1
    | down _ hchild _ => simp [hbelow] at hchild

theorem TypeTree.searched (h : TypeTree v) (target : String) : Searched target v := by
  cases h with
  | @mk typeName _ _ _ _ _ _ _ _ _ _ _ name hname hbelow =>
    have hcalled : ∀ rest, called? (.element .typeDef (typeName :: rest)) =
        some ("ModuleTypeDef:" ++ name) := fun rest => by rw [called?, hname, Option.map_some]
    have hshown : typeName.shown = .ok name := by
      cases typeName <;> cases hname <;> rfl
    refine .of_below (hcalled _) rfl (fun m hm => (hbelow m hm).searched target) fun path => ?_
    simp only [searchIn, hshown, ok_bind, Option.map_some, searchBelow]
    rfl

end Places

/-- A search for a name in a picture gives the modules of that name, whatever their letters' case:
each once for every place where one stands, in the order of the places, with the names of the nodes
on the way there. -/
theorem search_finds_places {picture : Value} (h : PictureTree picture) (target : String) :
    ∃ hits : List Hit,
      search picture target = .ok (hits.map fun hit => (some hit.names, hit.node)) ∧
      (hits.Pairwise fun a b => a.place < b.place) ∧
      ∀ place names m, ⟨place, names, m⟩ ∈ hits ↔
        Leads picture place names m ∧ Matches target m := by
  cases h with
  | @mk header pictureName position records locals definition code file lib tree types submodules
      name hname hbelow htypes =>
      obtain ⟨own, hown, hownHits⟩ :=
        searchAll_hits (fun m hm => (hbelow m hm).searched target) [name] 0
      obtain ⟨inTypes, hinTypes, htypeHits⟩ :=
        searchAll_hits (fun type ht => (htypes type ht).searched target) [name]
          (0 + submodules.length)
      have hhits := HitsFrom.of_below (v := .element .basePicture [header, pictureName, position,
        records, .list types, locals, .list submodules, definition, code, file, lib, tree])
        hname (.inr ⟨rfl, fun hmatch => by cases hmatch.1⟩) (hownHits.append htypeHits)
      refine ⟨_, ?_, hhits.ordered, fun place names m => hhits.mem_iff ⟨place, names, m⟩⟩
      have hfield : (Value.element .basePicture [header, pictureName, position, records, .list types,
        locals, .list submodules, definition, code, file, lib, tree]).field "name" =
          .ok pictureName := rfl
      rw [search, hfield, ok_bind, hname, Option.map_some, searchIn, searchBelow, searchBelow, hown,
        hinTypes, nil_append, Hit.found_root, map_append]
      rfl

/-! A cell inside a cell, and a third one in a frame of a module type. -/

def cellNamed (name : String) (submodules : List Value) : Value :=
  .element .singleModule [.element .moduleHeader [.text name], .null, .null, .list [], .list [],
    .list submodules, .null, .list []]

def areaAround (submodules : List Value) : Value :=
  .element .frameModule [.element .moduleHeader [.text "Area"], .null, .list submodules, .null, .null]

def pumpAround (submodules : List Value) : Value :=
  .element .typeDef [.text "Pump", .null, .list [], .list [], .list submodules, .null, .null, .list [],
    .null, .bool false, .null, .null]

def cellsPicture : Value :=
  .element .basePicture [.element .moduleHeader [.text "Plant"], .text "BasePicture", .null, .list [],
    .list [pumpAround [areaAround [cellNamed "CELL" []]]], .list [],
    .list [cellNamed "Cell" [cellNamed "cell" []]], .null, .null, .null, .null, .null]

theorem cells_found : ∃ hits : List Hit,
    search cellsPicture "CeLL" = .ok (hits.map fun hit => (some hit.names, hit.node)) ∧
    ⟨[0], ["BasePicture", "Cell"], cellNamed "Cell" [cellNamed "cell" []]⟩ ∈ hits ∧
    ⟨[0, 0], ["BasePicture", "Cell", "cell"], cellNamed "cell" []⟩ ∈ hits ∧
    ⟨[1, 0, 0], ["BasePicture", "ModuleTypeDef:Pump", "Area", "CELL"], cellNamed "CELL" []⟩ ∈ hits := by
  have hempty : ∀ m ∈ ([] : List Value), ModuleTree m := by simp
  have hcells : PictureTree cellsPicture := by
    refine .mk rfl (forall_mem_singleton.mpr ?_)
      (forall_mem_singleton.mpr ?_)
    · exact .single rfl
        (forall_mem_singleton.mpr (.single rfl hempty))
    · exact .mk rfl (forall_mem_singleton.mpr (.frame rfl
        (forall_mem_singleton.mpr (.single rfl hempty))))
  obtain ⟨hits, hsearch, -, hmem⟩ := search_finds_places hcells "CeLL"
  refine ⟨hits, hsearch, (hmem _ _ _).mpr ⟨?_, rfl, "Cell", rfl, by decide⟩,
    (hmem _ _ _).mpr ⟨?_, rfl, "cell", rfl, by decide⟩,
    (hmem _ _ _).mpr ⟨?_, rfl, "CELL", rfl, by decide⟩⟩
  · exact .down rfl rfl (.here rfl)
  · exact .down rfl rfl (.down rfl rfl (.here rfl))
  · exact .down rfl rfl (.down rfl rfl (.down rfl rfl (.here rfl)))

end SattLine.Compare
