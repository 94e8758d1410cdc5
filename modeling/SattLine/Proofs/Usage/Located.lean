import SattLine.Proofs.Build.CodeForm
import SattLine.Proofs.Usage.Position

/-!
The references in code with the sites at which they stand: as the target of an assignment, as a
bare argument of a library routine, or elsewhere. All of a value is looked through for them,
whatever its form. Main statement: the walk over code finds just these references, each once, with
the accesses of its site.
-/

namespace SattLine.Usage

open List
open Build (IsExpression IsInstruction IsNode IsSequence IsEquation IsModuleCode IsReference
  IsLiteral references referencesIn callOf operationOf choiceOf conditionalOf branchOf wrapped
  realPair)

/-- Where a reference stands in code. -/
inductive Site where
  | target
  | argument (direction : Routine.Direction)
  | elsewhere
  deriving DecidableEq, Repr

namespace Site

/-- How a variable is accessed at a site. -/
def accesses : Site → List Access
  | .target | .argument .output => [.write]
  | .argument .both => [.read, .write]
  | .argument _ | .elsewhere => [.read]

/-- The site of an argument; those of an unknown routine stand nowhere special. -/
def ofArgument (routine : Option Routine) (place : Nat) : Site :=
  match routine with
  | some r => .argument (r.directionAt place)
  | none => .elsewhere

end Site

mutual

/-- The references in a value with their sites, from left to right; `site` is that of the value
itself. -/
def locatedAt (site : Site) : Value → List (Site × Value)
  | .dict keys values =>
    if isReference (.dict keys values) then [(site, .dict keys values)] else locatedIn values
  | .tuple [.text "assign", target, value] =>
    locatedAt .target target ++ locatedAt .elsewhere value
  | .tuple [.text "FunctionCall", .text name, .list arguments] =>
    locatedArguments (Routine.find? name) 0 arguments
  | .tuple items | .list items => locatedIn items
  | .tree _ _ children => locatedIn children
  | .element _ fields => locatedIn fields
  | _ => []

def locatedIn : List Value → List (Site × Value)
  | [] => []
  | v :: rest => locatedAt .elsewhere v ++ locatedIn rest

def locatedArguments (routine : Option Routine) (place : Nat) : List Value → List (Site × Value)
  | [] => []
  | v :: rest =>
    locatedAt (.ofArgument routine place) v ++ locatedArguments routine (place + 1) rest

end

/-- The references in a piece of code with their sites. -/
def located (v : Value) : List (Site × Value) :=
  locatedAt .elsewhere v

mutual

/-- Each reference is located once, in its place. -/
theorem map_snd_locatedAt (site : Site) (v : Value) :
    (locatedAt site v).map Prod.snd = references v := by
  fun_cases locatedAt site v with
  | case1 keys values h =>
    have hkey : (Value.dict keys values).hasKey "var_name" = true := h
    simp [references, hkey]
  | case2 keys values h =>
    have hkey : (Value.dict keys values).hasKey "var_name" = false := by simpa using! h
    simp [references, hkey, map_snd_locatedIn values]
  | case3 target value =>
    simp [map_snd_locatedAt .target target, map_snd_locatedAt .elsewhere value]
  | case4 name arguments => simp [map_snd_locatedArguments (Routine.find? name) 0 arguments]
  | case5 items | case6 items => simp [map_snd_locatedIn items]
  | case7 _ _ children => simp [map_snd_locatedIn children]
  | case8 _ fields => simp [map_snd_locatedIn fields]
  | case9 v => cases v <;> simp_all [references]

theorem map_snd_locatedIn (items : List Value) :
    (locatedIn items).map Prod.snd = referencesIn items := by
  match items with
  | [] => rfl
  | v :: rest =>
    rw [locatedIn, map_append, map_snd_locatedAt, map_snd_locatedIn]
    rfl

theorem map_snd_locatedArguments (routine : Option Routine) (place : Nat) (items : List Value) :
    (locatedArguments routine place items).map Prod.snd = referencesIn items := by
  match items with
  | [] => rfl
  | v :: rest =>
    rw [locatedArguments, map_append, map_snd_locatedAt, map_snd_locatedArguments]
    rfl

end

variable {v : Value} {items statements : List Value} {find : Value → List Finding}

theorem locatedAt_of_isReference (h : isReference v = true) (site : Site) :
    locatedAt site v = [(site, v)] := by
  cases v with
  | dict keys values => rw [locatedAt, if_pos h]
  | _ => cases h

/-- Only a reference itself stands at the site of a value. -/
theorem locatedAt_of_not_isReference (h : isReference v = false) (site : Site) :
    locatedAt site v = located v := by
  fun_cases locatedAt site v with
  | case1 keys values hkey => simp [hkey] at h
  | case5 items hassign hcall =>
    rw [located, locatedAt]
    · exact hassign
    · exact hcall
  | _ => simp_all [located, locatedAt]

/-- Where the name of a reference is looked up: only arguments are looked up in the whole
program. -/
def Site.reach : Site → Reach
  | .argument _ => .scopeThenProgram
  | _ => .scope

/-- What is found in a reference at a site. -/
def foundAt (place : Site × Value) : List Finding :=
  Usage.accesses place.1.accesses place.1.reach place.2

/-- The walk finds in this value just its references, each with the accesses of its site. -/
def Exact (v : Value) : Prop :=
  expression v = (located v).flatMap foundAt

theorem expressions_of_exact (h : ∀ v ∈ items, Exact v) :
    expressions items = (locatedIn items).flatMap foundAt := by
  induction items with
  | nil => rfl
  | cons v rest ih =>
    obtain ⟨hv, hrest⟩ := forall_mem_cons.mp h
    rw [expressions, locatedIn, flatMap_append, ih hrest, hv, located]

theorem accesses_argument (direction : Routine.Direction) :
    (Site.argument direction).accesses = direction.accesses := by
  cases direction <;> rfl

theorem exact_of_isReference (h : isReference v = true) : Exact v := by
  rw [Exact, located, locatedAt_of_isReference h]
  cases v with
  | dict keys values =>
    rw [expression, if_pos h]
    simp [foundAt, Site.accesses, Site.reach]
  | _ => cases h

/-- An argument, whether it goes the way of its routine or is treated as an expression. -/
theorem argument_of_exact (hv : Exact v) (routine : Option Routine) (place : Nat) :
    (match argument? routine place v with
      | some found => found
      | none => expression v) = (locatedAt (.ofArgument routine place) v).flatMap foundAt := by
  by_cases hreference : isReference v = true
  · cases routine with
    | none => exact hv
    | some r =>
      rw [locatedAt_of_isReference hreference]
      simp [argument?, hreference, foundAt, Site.ofArgument, Site.reach, accesses_argument]
  · have hother := Bool.eq_false_iff.mpr hreference
    rw [locatedAt_of_not_isReference hother, argument?_eq_none place (.inr hother)]
    exact hv

theorem arguments_of_exact (routine : Option Routine) (h : ∀ v ∈ items, Exact v) (place : Nat) :
    arguments routine place items = (locatedArguments routine place items).flatMap foundAt := by
  induction items generalizing place with
  | nil => rfl
  | cons v rest ih =>
    obtain ⟨hv, hrest⟩ := forall_mem_cons.mp h
    rw [arguments, locatedArguments, flatMap_append, ih hrest]
    congr 1
    exact argument_of_exact hv routine place

theorem exact_call (name : String) {arguments : List Value} (h : ∀ v ∈ arguments, Exact v) :
    Exact (callOf name arguments) := by
  rw [Exact, located, callOf, locatedAt, ← arguments_of_exact _ h]
  simp [expression, Value.text?, operation, call, routineOf_text]

theorem exact_operation {op : String} (hop : op = "compare" ∨ op = "add" ∨ op = "mul")
    {left : Value} (hleft : Exact left) {sides : List (String × Value)}
    (h : ∀ side ∈ sides, Exact side.2) : Exact (operationOf op left sides) := by
  have hsides : rightSidesOf (sides.map fun side => .tuple [.text side.1, side.2]) =
      (locatedIn (sides.map fun side => .tuple [.text side.1, side.2])).flatMap foundAt := by
    induction sides with
    | nil => rfl
    | cons side rest ih =>
      obtain ⟨hside, hrest⟩ := forall_mem_cons.mp h
      have hpair : locatedAt .elsewhere (.tuple [.text side.1, side.2]) = located side.2 := by
        simp [locatedAt, locatedIn, located]
      rw [map_cons, rightSidesOf, locatedIn, flatMap_append, hpair, ih hrest, hside]
  have hlocated : located (operationOf op left sides) = located left ++
      locatedIn (sides.map fun side => .tuple [.text side.1, side.2]) := by
    rcases hop with rfl | rfl | rfl <;> simp [operationOf, located, locatedAt, locatedIn]
  rw [Exact, hlocated, flatMap_append, ← hsides, ← hleft]
  rcases hop with rfl | rfl | rfl <;>
    simp [operationOf, expression, Value.text?, operation, rightSides]

theorem locatedAt_pair (first second : Value) :
    locatedAt .elsewhere (.tuple [first, second]) = located first ++ located second := by
  simp [locatedAt, locatedIn, located]

theorem exact_choice {choices : List (Value × Value)} {otherwise : Value}
    (hconditions : ∀ choice ∈ choices, Exact choice.1) (hchoices : ∀ choice ∈ choices, Exact choice.2)
    (hotherwise : Exact otherwise) : Exact (choiceOf choices otherwise) := by
  have hpairs : choicesOf (choices.map fun choice => .tuple [choice.1, choice.2]) =
      (locatedIn (choices.map fun choice => .tuple [choice.1, choice.2])).flatMap foundAt := by
    induction choices with
    | nil => rfl
    | cons choice rest ih =>
      obtain ⟨hcondition, hconditions⟩ := forall_mem_cons.mp hconditions
      obtain ⟨hchoice, hchoices⟩ := forall_mem_cons.mp hchoices
      rw [map_cons, choicesOf, locatedIn, flatMap_append, locatedAt_pair,
        flatMap_append, ih hconditions hchoices, hcondition, hchoice]
  have hlocated : located (choiceOf choices otherwise) =
      locatedIn (choices.map fun choice => .tuple [choice.1, choice.2]) ++ located otherwise := by
    simp [choiceOf, located, locatedAt, locatedIn]
  rw [Exact, hlocated, flatMap_append, ← hpairs, ← hotherwise]
  simp [choiceOf, expression, Value.text?, operation, Usage.choices]

theorem exact_expression (h : IsExpression v) : Exact v := by
  induction h with
  | literal h =>
    rcases h with ⟨_, rfl⟩ | ⟨_, rfl⟩ | ⟨_, rfl⟩ | ⟨_, rfl⟩ <;> rfl
  | reference h =>
    obtain ⟨_, _, rfl, hreference, -⟩ := h
    exact exact_of_isReference hreference
  | @negated v _ ih =>
    rw [Exact, located, locatedAt_pair, flatMap_append, ← ih]
    simp [expression, Value.text?, operation, located, locatedAt]
  | @chained op operands hop _ ih =>
    have hall := expressions_of_exact ih
    rw [Exact, located, locatedAt_pair, flatMap_append]
    rcases hop with rfl | rfl <;>
      simp [expression, Value.text?, operation, block, located, locatedAt, hall]
  | operated hop _ _ ihleft ih => exact exact_operation hop ihleft ih
  | @signed op v hop _ ih =>
    rw [Exact, located, locatedAt_pair, flatMap_append, ← ih]
    rcases hop with rfl | rfl <;>
      simp [expression, Value.text?, operation, located, locatedAt]
  | chosen _ _ _ ihconditions ihchoices ihotherwise =>
    exact exact_choice ihconditions ihchoices ihotherwise
  | called _ ih => exact exact_call _ ih

theorem exact_wrapped {x : Value} (h : Exact x) : Exact (wrapped x) := by
  have hlocated : located (wrapped x) = located x := by
    simp [wrapped, located, locatedAt, locatedIn]
  rw [Exact, hlocated, ← h]
  simp [wrapped, expression, expressions]

theorem block_of_exact (h : ∀ x ∈ statements, Exact x) :
    block (.list statements) = (locatedIn statements).flatMap foundAt := by
  rw [block, expressions_of_exact h]

theorem exact_wrapped_all (h : ∀ x ∈ statements, Exact x) :
    ∀ x ∈ statements.map wrapped, Exact x := by
  intro x hx
  obtain ⟨statement, hstatement, rfl⟩ := mem_map.mp hx
  exact exact_wrapped (h statement hstatement)

theorem exact_conditional {branches : List (Value × List Value)} {otherwise : Option (List Value)}
    (hconditions : ∀ branch ∈ branches, Exact branch.1)
    (hblocks : ∀ branch ∈ branches, ∀ x ∈ branch.2, Exact x)
    (hotherwise : ∀ statements ∈ otherwise, ∀ x ∈ statements, Exact x) :
    Exact (conditionalOf branches otherwise) := by
  have hbranches : branchesOf (branches.map fun branch =>
      branchOf branch.1 (branch.2.map wrapped)) =
        (locatedIn (branches.map fun branch =>
          branchOf branch.1 (branch.2.map wrapped))).flatMap foundAt := by
    induction branches with
    | nil => rfl
    | cons branch rest ih =>
      obtain ⟨hcondition, hconditions⟩ := forall_mem_cons.mp hconditions
      obtain ⟨hblock, hblocks⟩ := forall_mem_cons.mp hblocks
      have hstatements := block_of_exact (exact_wrapped_all hblock)
      rw [map_cons, branchOf, branchesOf, locatedIn, flatMap_append, locatedAt_pair,
        flatMap_append, ih hconditions hblocks, hcondition, hstatements]
      rfl
  have hlast : block ((otherwise.map fun statements => .list (statements.map wrapped)).getD .null) =
      (located ((otherwise.map fun statements =>
        .list (statements.map wrapped)).getD .null)).flatMap foundAt := by
    cases otherwise with
    | none => rfl
    | some statements => exact block_of_exact (exact_wrapped_all (hotherwise statements rfl))
  have hlocated : located (conditionalOf branches otherwise) =
      locatedIn (branches.map fun branch => branchOf branch.1 (branch.2.map wrapped)) ++
        located ((otherwise.map fun statements => .list (statements.map wrapped)).getD .null) := by
    simp [conditionalOf, located, locatedAt, locatedIn]
  rw [Exact, hlocated, flatMap_append, ← hbranches, ← hlast]
  simp [conditionalOf, expression, Value.text?, operation, Usage.branches]

theorem exact_instruction (h : IsInstruction v) : Exact v := by
  induction h with
  | @assigned target value htarget hvalue =>
    obtain ⟨_, _, rfl, hreference, -⟩ := htarget
    have hexact := exact_expression hvalue
    rw [Exact, located, locatedAt, flatMap_append, locatedAt_of_isReference hreference]
    rw [Exact, located] at hexact
    simp [expression, Value.text?, operation, referenceAccesses, hreference, foundAt,
      Site.accesses, Site.reach, hexact]
  | called h => exact exact_call _ fun v hv => exact_expression (h v hv)
  | branched hconditions _ _ ihblocks ihotherwise =>
    exact exact_conditional (fun branch hbranch => exact_expression (hconditions branch hbranch))
      ihblocks ihotherwise

theorem located_of_isText (h : v.isText = true) : located v = [] := by
  cases v <;> simp_all [Value.isText, Value.text?, located, locatedAt]

theorem locatedIn_cons (v : Value) (rest : List Value) :
    locatedIn (v :: rest) = located v ++ locatedIn rest :=
  rfl

/-- The walk finds just the references in this node. -/
def ExactNode (v : Value) : Prop :=
  ∃ kind fields, v = .element kind fields ∧ node kind fields = (located v).flatMap foundAt

theorem nodesOf_of_exact (h : ∀ v ∈ items, ExactNode v) :
    nodesOf items = (locatedIn items).flatMap foundAt := by
  induction items with
  | nil => rfl
  | cons v rest ih =>
    obtain ⟨⟨kind, fields, rfl, hnode⟩, hrest⟩ := forall_mem_cons.mp h
    rw [nodesOf, locatedIn_cons, flatMap_append, ih hrest, hnode]

theorem nodeBranchesOf_of_exact {branches : List (List Value)}
    (h : ∀ branch ∈ branches, ∀ v ∈ branch, ExactNode v) :
    nodeBranchesOf (branches.map .list) = (locatedIn (branches.map .list)).flatMap foundAt := by
  induction branches with
  | nil => rfl
  | cons branch rest ih =>
    obtain ⟨hbranch, hrest⟩ := forall_mem_cons.mp h
    rw [map_cons, nodeBranchesOf, nodes, locatedIn_cons, flatMap_append, ih hrest,
      nodesOf_of_exact hbranch]
    rfl

theorem exact_node (h : IsNode v) : ExactNode v := by
  induction h with
  | @step kind name enter active exit hname henter hactive hexit =>
    refine ⟨_, _, rfl, ?_⟩
    have hlocated : located (.element .step [.text kind, name,
        .element .codeBlocks [.list enter, .list active, .list exit]]) =
          locatedIn enter ++ locatedIn active ++ locatedIn exit := by
      have hlead := located_of_isText hname
      rw [located] at hlead
      simp [located, locatedAt, locatedIn, hlead]
    rw [hlocated, node, flatMap_append, flatMap_append,
      block_of_exact fun x hx => exact_instruction (henter x hx),
      block_of_exact fun x hx => exact_instruction (hactive x hx),
      block_of_exact fun x hx => exact_instruction (hexit x hx)]
  | @transition name condition hname h =>
    refine ⟨_, _, rfl, ?_⟩
    have hlocated : located (.element .transition [name, condition]) = located condition := by
      have hlead := located_of_isText hname
      rw [located] at hlead
      simp [located, locatedAt, locatedIn, hlead]
    rw [hlocated, node]
    exact exact_expression h
  | @branched kind branches hkind _ ih =>
    refine ⟨_, _, rfl, ?_⟩
    have hlocated : located (.element kind [.list (branches.map .list)]) =
        locatedIn (branches.map .list) := by
      simp [located, locatedAt, locatedIn]
    rw [hlocated, ← nodeBranchesOf_of_exact ih]
    rcases hkind with rfl | rfl <;> simp [node, nodeBranches]
  | @nested kind name nodes hkind hname _ ih =>
    refine ⟨_, _, rfl, ?_⟩
    have hlocated : located (.element kind [name, .list nodes]) = locatedIn nodes := by
      have hlead := located_of_isText hname
      rw [located] at hlead
      simp [located, locatedAt, locatedIn, hlead]
    rw [hlocated, ← nodesOf_of_exact ih]
    rcases hkind with rfl | rfl <;> simp [node, Usage.nodes]
  | @fork name hname =>
    refine ⟨_, _, rfl, ?_⟩
    have hlead := located_of_isText hname
    rw [located] at hlead
    simp [located, locatedAt, locatedIn, node, hlead]
  | stop => exact ⟨_, _, rfl, rfl⟩

/-- The code of a block is looked through, unless there is none. -/
theorem inCode_eq (hcode : v.field? "code" = some (.list items)) (hempty : find (.list []) = []) :
    inCode find v = find (.list items) := by
  cases items with
  | nil => simp [inCode, hcode, Value.holds, hempty]
  | cons first rest => simp [inCode, hcode, Value.holds]

theorem exact_sequence (h : IsSequence v) : sequence v = (located v).flatMap foundAt := by
  obtain ⟨name, kind, x, y, width, height, control, timer, items, rfl, hitems⟩ := h
  have hlocated : located (.element .sequence [.text name, .text kind, realPair x y,
      realPair width height, .bool control, .bool timer, .list items]) = locatedIn items := by
    simp [realPair, located, locatedAt, locatedIn]
  rw [hlocated, ← nodesOf_of_exact fun v hv => exact_node (hitems v hv), sequence, inCode_eq rfl]
  · rw [nodes]
  · rfl

theorem exact_equation (h : IsEquation v) : equation v = (located v).flatMap foundAt := by
  obtain ⟨name, x, y, width, height, items, rfl, hitems⟩ := h
  have hlocated : located (.element .equation [.text name, realPair x y, realPair width height,
      .list items]) = locatedIn items := by
    simp [realPair, located, locatedAt, locatedIn]
  rw [hlocated, ← block_of_exact fun v hv => exact_instruction (hitems v hv), equation,
    inCode_eq rfl rfl]

theorem flatMap_of_exact (h : ∀ v ∈ items, find v = (located v).flatMap foundAt) :
    items.flatMap find = (locatedIn items).flatMap foundAt := by
  induction items with
  | nil => rfl
  | cons v rest ih =>
    obtain ⟨hv, hrest⟩ := forall_mem_cons.mp h
    rw [flatMap_cons, locatedIn_cons, flatMap_append, ih hrest, hv]

/-- The walk over the code of a module finds just its references, each with the accesses of its
site, in the order of the text. -/
theorem code_eq_flatMap_located (h : IsModuleCode v) : code v = (located v).flatMap foundAt := by
  obtain ⟨sequences, equations, rfl, hsequences, hequations⟩ := h
  have hlocated : located (.element .moduleCode [.list sequences, .list equations]) =
      locatedIn sequences ++ locatedIn equations := by
    simp [located, locatedAt, locatedIn]
  rw [hlocated, flatMap_append,
    ← flatMap_of_exact fun v hv => exact_sequence (hsequences v hv),
    ← flatMap_of_exact fun v hv => exact_equation (hequations v hv)]
  rfl

end SattLine.Usage
