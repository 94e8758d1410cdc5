import SattLine.Proofs.Usage.PlainValue

/-!
What the graphics of a module refer to. A variable may be connected to almost every property of a
graphical or interactive object, but only the connections of `Enable_` parts are met when the
variables of a picture are looked for, and those of procedure buttons are not. Main statement:
besides the variables that are shown in texts, the graphics of a module refer to just the tails of
such parts.
-/

namespace SattLine.Usage

open List
open Grammar (Part Rule)
open Syntax (Tree IsOf ruleNamed? leave labelOf leave_eq within rowWithin rowWithin_of_mem
  alternativesWithin)
open Build (Spec Builds OfRule Rounds valueOf valuesOf constructed valueOf_node_eq_ok
  valuesOf_cons_eq_ok propertyOf addToDefinition orNull interactObjects proceduresOf isOtherDict
  graphObjectOf tailsOf procedureButton)

mutual

/-- The enabling parts of a tree, in the order of the text. Those of procedure buttons are passed
over. -/
def enablings : Tree → List Tree
  | .leaf _ => []
  | .node label children =>
    if label == "enable" then [.node label children]
    else if label == "combutproc_item" then []
    else enablingsIn children

def enablingsIn : List Tree → List Tree
  | [] => []
  | tree :: rest => enablings tree ++ enablingsIn rest

end

@[simp] theorem enablingsIn_nil : enablingsIn [] = [] := by
  rw [enablingsIn]

@[simp] theorem enablingsIn_cons (tree : Tree) (rest : List Tree) :
    enablingsIn (tree :: rest) = enablings tree ++ enablingsIn rest := by
  rw [enablingsIn]

@[simp] theorem enablingsIn_append (first rest : List Tree) :
    enablingsIn (first ++ rest) = enablingsIn first ++ enablingsIn rest := by
  induction first with
  | nil => simp
  | cons tree more ih => simp [ih]

@[simp] theorem enablings_leaf (lexeme : Syntax.Token) : enablings (.leaf lexeme) = [] := by
  rw [enablings]

variable {label : String} {rest first trees : List Tree} {finding : Finding} {items : List Value}
  {row : List Part}

/-- The labels of the nodes of which the parts are not looked through. -/
def closedLabels : List String :=
  ["enable", "combutproc_item"]

theorem enablings_node (children : List Tree) (hlabel : label ∉ closedLabels) :
    enablings (.node label children) = enablingsIn children := by
  simp only [closedLabels, mem_cons, not_mem_nil, or_false, not_or] at hlabel
  simp [enablings, hlabel.1, hlabel.2]

/-- What is found at the enabling parts of a tree. -/
def Enabled (tree : Tree) (finding : Finding) : Prop :=
  ∃ node ∈ enablings tree, ∃ v, valueOf node = .ok v ∧ finding ∈ tail (v.getOrNull "tail")

def EnabledIn (trees : List Tree) (finding : Finding) : Prop :=
  ∃ node ∈ enablingsIn trees, ∃ v, valueOf node = .ok v ∧ finding ∈ tail (v.getOrNull "tail")

theorem enabledIn_cons {tree : Tree} :
    EnabledIn (tree :: rest) finding ↔ Enabled tree finding ∨ EnabledIn rest finding := by
  simp only [EnabledIn, Enabled, enablingsIn_cons, mem_append, or_and_right, exists_or]

theorem enabledIn_append :
    EnabledIn (first ++ rest) finding ↔ EnabledIn first finding ∨ EnabledIn rest finding := by
  simp only [EnabledIn, enablingsIn_append, mem_append, or_and_right, exists_or]

theorem not_enabledIn_nil : ¬ EnabledIn [] finding := by
  simp [EnabledIn]

theorem enabled_node {children : List Tree} (hlabel : label ∉ closedLabels) :
    Enabled (.node label children) finding ↔ EnabledIn children finding := by
  rw [Enabled, EnabledIn, enablings_node children hlabel]

/-- A value in which just the enabling parts of its tree are met. -/
structure Carries (tree : Tree) (v : Value) : Prop where
  gathered : ∀ finding, finding ∈ Usage.gathered v ↔ Enabled tree finding
  body : ∀ finding, finding ∈ Usage.body v ↔ Enabled tree finding

structure CarriesIn (trees : List Tree) (items : List Value) : Prop where
  gathered : ∀ finding, finding ∈ gatheredIn items ↔ EnabledIn trees finding
  bodies : ∀ finding, finding ∈ Usage.bodies items ↔ EnabledIn trees finding

theorem Plain.carries {tree : Tree} {v : Value} (h : Plain v) (hnone : enablings tree = []) :
    Carries tree v := by
  constructor <;> simp [h.1, h.2, Enabled, hnone]

theorem carriesIn_nil : CarriesIn [] [] := by
  constructor <;> simp [gatheredIn_nil, bodies_nil, not_enabledIn_nil]

theorem CarriesIn.cons {tree : Tree} {v : Value} {trees : List Tree} {items : List Value}
    (hv : Carries tree v) (h : CarriesIn trees items) : CarriesIn (tree :: trees) (v :: items) := by
  constructor
  · intro finding
    rw [gatheredIn_cons, mem_append, enabledIn_cons, hv.gathered, h.gathered]
  · intro finding
    rw [bodies_cons, mem_append, enabledIn_cons, hv.body, h.bodies]

theorem CarriesIn.of_forall₂ (h : List.Forall₂ Carries trees items) : CarriesIn trees items := by
  induction h with
  | nil => exact carriesIn_nil
  | cons hv _ ih => exact .cons hv ih

theorem bodies_append (first rest : List Value) :
    bodies (first ++ rest) = bodies first ++ bodies rest := by
  induction first with
  | nil => simp [bodies_nil]
  | cons v more ih => simp [bodies_cons, ih]

/-- A tree that stays as it is carries what its parts carry. -/
theorem CarriesIn.tree {ofRule : Bool} (h : CarriesIn trees items)
    (htail : Build.isTailLabel label = false) (hlabel : label ∉ closedLabels) :
    Carries (.node label trees) (.tree label ofRule items) := by
  constructor
  · intro finding
    rw [enabled_node hlabel, ← h.gathered, gathered_tree htail]
  · intro finding
    rw [enabled_node hlabel, ← h.bodies, body_tree htail]

/-- The rules in which enabling parts stand. -/
def carrierNames : List String :=
  ["enable", "common_properties", "interact_body", "interact_body_seq"]

def graphNames : List String :=
  ["text_object", "rectangle_object", "line_object", "oval_object", "polygon_object",
    "segment_object", "composite_object", "graph_object"]

def interactionNames : List String :=
  ["interact_simple_item", "combutproc_item"]

/-- What is found in the texts that a graphical object shows. -/
def shownIn : Value → List Finding :=
  inProperties fun properties => inItems shownVariable (properties.getOrNull "text_vars")

/-- An object of a picture in which `search` meets, besides what is shown, just its enabling
parts. -/
structure IsObject (kind : Element) (search shown : Value → List Finding) (tree : Tree)
    (v : Value) : Prop where
  isElement : v.isElement kind = true
  findings : ∀ finding, finding ∈ search v ↔ finding ∈ shown v ∨ Enabled tree finding

/-- A list of objects in which, besides what is shown, just the enabling parts of the trees are
met. -/
structure AreObjects (kind : Element) (search shown : Value → List Finding) (trees : List Tree)
    (objects : List Value) : Prop where
  isElement : ∀ v ∈ objects, v.isElement kind = true
  findings : ∀ finding, finding ∈ objects.flatMap search ↔
    finding ∈ objects.flatMap shown ∨ EnabledIn trees finding

section Objects

variable {kind : Element} {search shown : Value → List Finding} {tree : Tree} {v : Value}
  {objects : List Value}

theorem IsObject.node (h : IsObject kind search shown tree v) (hlabel : label ∉ closedLabels) :
    IsObject kind search shown (.node label [tree]) v := by
  refine ⟨h.isElement, fun finding => ?_⟩
  rw [h.findings, enabled_node hlabel, enabledIn_cons]
  simp [not_enabledIn_nil]

theorem areObjects_nil : AreObjects kind search shown [] [] := by
  constructor <;> simp [not_enabledIn_nil]

theorem AreObjects.cons (hv : IsObject kind search shown tree v)
    (h : AreObjects kind search shown trees objects) :
    AreObjects kind search shown (tree :: trees) (v :: objects) := by
  refine ⟨forall_mem_cons.mpr ⟨hv.isElement, h.isElement⟩, fun finding => ?_⟩
  rw [flatMap_cons, flatMap_cons, mem_append, mem_append, enabledIn_cons, hv.findings, h.findings,
    or_or_or_comm]

theorem AreObjects.node {lexeme : Syntax.Token} (h : AreObjects kind search shown trees objects)
    (hlabel : label ∉ closedLabels) :
    AreObjects kind search shown [.node label (.leaf lexeme :: (trees ++ []))] objects := by
  refine ⟨h.isElement, fun finding => ?_⟩
  rw [h.findings, enabledIn_cons, enabled_node hlabel, append_nil, enabledIn_cons]
  simp [not_enabledIn_nil, Enabled]

end Objects

abbrev IsGraph : Tree → Value → Prop :=
  IsObject .graphObject graphObject shownIn

abbrev IsInteraction : Tree → Value → Prop :=
  IsObject .interactObject interactObject fun _ => []

abbrev AreGraphs : List Tree → List Value → Prop :=
  AreObjects .graphObject graphObject shownIn

abbrev AreInteractions : List Tree → List Value → Prop :=
  AreObjects .interactObject interactObject fun _ => []

/-- What is specified of the parts of a picture. -/
structure IsPart (name : String) (tree : Tree) (v : Value) : Prop where
  plain : name ∈ plainNames → Plain v ∧ enablings tree = []
  carries : name ∈ carrierNames → Carries tree v
  graph : name ∈ graphNames → IsGraph tree v
  interaction : name ∈ interactionNames → IsInteraction tree v
  item : name = "interact_item" →
    ∃ object, v = .tree "interact_item" true [object] ∧ IsInteraction tree object
  area : name ∈ ["origo_size_pair", "clippingbounds"] → v.isTuple = true
  unopened : name ∈ ["interact_body_seq", "combutproc_tail", "moduledef_opts"] →
    ∃ children, v = .tree name true children
  call : name = "procedure_call" → ∃ called arguments, v =
    .dict [.text "procedure_call"] [.dict [.text "name", .text "args"] [called, arguments]]
  graphs : name = "graph_objects" → ∃ objects, v = .list objects ∧ AreGraphs [tree] objects
  interactions : name = "interact_objects" →
    ∃ objects, v = .list objects ∧ AreInteractions [tree] objects

def partSpec : Spec := IsPart

theorem plain_of_builds (h : Builds partSpec row trees items)
    (hrow : rowWithin plainNames row = true) : AllPlain items ∧ enablingsIn trees = [] := by
  have heach : List.Forall₂ (fun tree v => Plain v ∧ enablings tree = []) trees items :=
    h.each_within hrow (fun _ _ hv => ⟨plain_leaf hv, enablings_leaf _⟩)
      fun _ hname _ _ hv => hv.plain hname
  clear h
  induction heach with
  | nil => simp [AllPlain]
  | cons hv _ ih => exact ⟨forall_mem_cons.mpr ⟨hv.1, ih.1⟩, by simp [hv.2, ih.2]⟩

/-- A row of rules that are plain or have enabling parts carries just these parts. -/
theorem carriesIn_of_builds (h : Builds partSpec row trees items)
    (hrow : rowWithin (carrierNames ++ plainNames) row = true) :
    CarriesIn trees items := by
  refine .of_forall₂ (h.each_within hrow (fun _ _ hv => (plain_leaf hv).carries (enablings_leaf _)) ?_)
  intro name hname tree v hv
  rcases mem_append.mp hname with hname | hname
  · exact hv.carries hname
  · obtain ⟨hplain, hnone⟩ := hv.plain hname
    exact hplain.carries hnone

/-- Plain rules have plain rules for parts, and none of them is an enabling. -/
theorem plain_within : ∀ name ∈ plainNames, ∀ rule, ruleNamed? name = some rule →
    alternativesWithin plainNames rule.alternatives = true ∧ labelOf rule.shape ∉ closedLabels := by
  intro name hname rule hrule
  simpa using Syntax.of_ruleNamed (p := fun rule => alternativesWithin plainNames rule.alternatives
    && decide (labelOf rule.shape ∉ closedLabels)) (by decide +kernel) hname hrule

section Kept

variable {name : String} {rule : Rule} {row : List Part} {inner : List Tree} {items : List Value}
  {tree : Tree} {v : Value}

theorem plain_kept (hname : name ∈ plainNames) (hrule : ruleNamed? name = some rule)
    (hrow : row ∈ rule.alternatives) (hparts : Builds partSpec row inner items)
    (hitems : valuesOf inner = .ok items) (hleave : leave rule.shape inner = [tree])
    (hv : valueOf tree = .ok v) : Plain v ∧ enablings tree = [] := by
  obtain ⟨hwithin, hlabel⟩ := plain_within name hname rule hrule
  obtain ⟨hplain, hnone⟩ := plain_of_builds hparts (rowWithin_of_mem hwithin hrow)
  obtain ⟨one, hone, hcases⟩ := leave_eq hrule inner
  cases hleave.symm.trans hone
  rcases hcases with rfl | ⟨rfl, -⟩
  · obtain ⟨others, hothers, hbuilt⟩ := valueOf_node_eq_ok.mp hv
    cases hitems.symm.trans hothers
    exact ⟨plain_constructed hrule hplain hbuilt hname, (enablings_node inner hlabel).trans hnone⟩
  · have hvalues : valuesOf [tree] = .ok [v] :=
      valuesOf_cons_eq_ok.mpr ⟨v, [], hv, rfl, rfl⟩
    cases hvalues.symm.trans hitems
    exact ⟨hplain v mem_cons_self, by simpa using hnone⟩

/-- The other rules of pictures leave nodes with their own names. -/
def nodeNames : List String :=
  carrierNames ++ graphNames ++ interactionNames ++ ["interact_item", "origo_size_pair",
    "clippingbounds", "combutproc_tail", "moduledef_opts", "procedure_call", "graph_objects",
    "interact_objects"]

theorem node_kept (hname : name ∈ nodeNames) (hrule : ruleNamed? name = some rule)
    (hitems : valuesOf inner = .ok items) (hleave : leave rule.shape inner = [tree])
    (hv : valueOf tree = .ok v) : tree = .node name inner ∧ constructed name items = .ok v := by
  have hall : ∀ name ∈ nodeNames, (ruleNamed? name).all (·.shape == .node name) = true := by
    decide +kernel
  have hshape : rule.shape = .node name := by
    simpa [hrule] using hall name hname
  rw [hshape] at hleave
  cases hleave
  obtain ⟨others, hothers, hbuilt⟩ := valueOf_node_eq_ok.mp hv
  cases hitems.symm.trans hothers
  exact ⟨rfl, hbuilt⟩

theorem enabling_carries {state : Bool} {connected : Value} (hplain : Plain connected)
    (hv : valueOf (.node "enable" inner) = .ok
      (Value.ofEntries [("enable", .bool state), ("tail", connected)])) :
    Carries (.node "enable" inner)
      (Value.ofEntries [("enable", .bool state), ("tail", connected)]) := by
  have htail : (Value.ofEntries [("enable", .bool state), ("tail", connected)]).getOrNull "tail" =
      connected := rfl
  have henabled : ∀ finding, Enabled (.node "enable" inner) finding ↔ finding ∈ tail connected := by
    intro finding
    have hnode : enablings (.node "enable" inner) = [.node "enable" inner] := by
      simp [enablings]
    rw [Enabled, hnode]
    simp [hv, htail]
  constructor
  · intro finding
    have hgathered : gathered (Value.ofEntries [("enable", .bool state), ("tail", connected)]) =
        tail connected := by
      have hnone : (Build.tails connected).flatMap tail = [] := hplain.1
      have hkey : (Value.dict [.text "enable", .text "tail"] [.bool state, connected]).get?
          "enable" = some (.bool state) := rfl
      have hentry : (Value.dict [.text "enable", .text "tail"] [.bool state, connected]).getOrNull
          "tail" = connected := rfl
      simp only [gathered, Value.ofEntries, map_cons, map_nil, Build.tails, hkey, hentry,
        tailsOf, nil_append, append_nil, flatMap_append, hnone]
      cases connected <;> simp [tail]
    rw [henabled, hgathered]
  · intro finding
    have hbody : body (Value.ofEntries [("enable", .bool state), ("tail", connected)]) =
        tail connected := by
      change tail connected ++ [] ++ ([] ++ (body connected ++ [])) = _
      simp [hplain.2]
    rw [henabled, hbody]

theorem enable_carries (h : OfRule partSpec "enable" inner items)
    (hv : valueOf (.node "enable" inner) = .ok v)
    (hbuilt : constructed "enable" items = .ok v) : Carries (.node "enable" inner) v := by
  cases hbuilt
  refine enabling_carries ?_ hv
  refine plain_lastOrNull ?_
  exact (plain_of_builds (h.only (by repeat constructor)) rfl).1

theorem carrier_kept (hname : name ∈ carrierNames) (h : OfRule partSpec name inner items)
    (hv : valueOf (.node name inner) = .ok v) (hbuilt : constructed name items = .ok v) :
    Carries (.node name inner) v := by
  simp only [carrierNames, mem_cons, not_mem_nil, or_false] at hname
  rcases hname with rfl | rfl | rfl | rfl
  · exact enable_carries h hv hbuilt
  all_goals
    obtain ⟨_, row, hrule, hrow, hparts⟩ := h
    cases hrule
    cases hbuilt
    exact (carriesIn_of_builds hparts (rowWithin_of_mem (by decide) hrow)).tree rfl (by decide)

theorem get?_ofEntries (entries : List (String × Value)) (name : String) :
    (Value.ofEntries entries).get? name = entries.lookup name := by
  induction entries with
  | nil => rfl
  | cons entry rest ih =>
    obtain ⟨key, value⟩ := entry
    simp only [Value.ofEntries, Value.get?, map_cons, zip_cons_cons, List.find?_cons,
      Value.text?, lookup_cons] at ih ⊢
    by_cases hkey : name = key
    · simp [hkey]
    · have hne : (some key == some name) = false := by simpa using fun h => hkey h.symm
      simp only [hne, beq_eq_false_iff_ne.mpr hkey]
      exact ih

theorem lookup_propertyOf (key : String) (items : List Value) :
    ((propertyOf key items).lookup key).getD .null = orNull items := by
  unfold propertyOf orNull
  split <;> simp

theorem lookup_propertyOf_ne {key name : String} (h : name ≠ key) (items : List Value) :
    (propertyOf key items).lookup name = none := by
  unfold propertyOf
  split <;> simp [lookup_cons, beq_eq_false_iff_ne.mpr h]

theorem lookup_areaOf {name : String} (h : name ≠ "coords") (items : List Value) :
    (Build.areaOf items).lookup name = none := by
  unfold Build.areaOf
  split <;> simp [lookup_cons, beq_eq_false_iff_ne.mpr h]

theorem inItems_orNull (find : Value → List Finding) (items : List Value) :
    inItems find (orNull items) = items.flatMap find := by
  cases items with
  | nil => rfl
  | cons v rest => rfl

theorem graphObject_findings (type : String) {area : List (String × Value)}
    (htails : area.lookup "tails" = none) (htexts : area.lookup "text_vars" = none)
    (gatheredTails names : List Value) :
    shownIn (graphObjectOf type (area ++ propertyOf "tails" gatheredTails ++
        propertyOf "text_vars" names)) = names.flatMap shownVariable ∧
      graphObject (graphObjectOf type (area ++ propertyOf "tails" gatheredTails ++
        propertyOf "text_vars" names)) =
          names.flatMap shownVariable ++ gatheredTails.flatMap tail := by
  generalize hproperties : area ++ propertyOf "tails" gatheredTails ++
    propertyOf "text_vars" names = properties
  have hgathered : (Value.ofEntries properties).getOrNull "tails" = orNull gatheredTails := by
    rw [Value.getOrNull, get?_ofEntries, ← hproperties, lookup_append, lookup_append,
      htails, Option.none_or, @lookup_propertyOf_ne "text_vars" "tails" (by decide),
      Option.or_none, lookup_propertyOf]
  have hnames : (Value.ofEntries properties).getOrNull "text_vars" = orNull names := by
    rw [Value.getOrNull, get?_ofEntries, ← hproperties, lookup_append, lookup_append,
      htexts, Option.none_or, lookup_propertyOf_ne (by decide), Option.none_or, lookup_propertyOf]
  have hfield : ∀ find : Value → List Finding,
      inProperties find (graphObjectOf type properties) = find (Value.ofEntries properties) :=
    fun _ => rfl
  rw [shownIn, graphObject, hfield, hfield, hnames, hgathered, inItems_orNull, inItems_orNull]
  exact ⟨rfl, rfl⟩

/-- A graphical object gathers the tails of all its parts. -/
theorem isGraph_of_properties (type : String) {area : List (String × Value)}
    (htails : area.lookup "tails" = none) (htexts : area.lookup "text_vars" = none)
    (names : List Value) (hlabel : name ∉ closedLabels) (h : CarriesIn inner items) :
    IsGraph (.node name inner) (graphObjectOf type (area ++
      propertyOf "tails" (tailsOf items) ++ propertyOf "text_vars" names)) := by
  obtain ⟨hshown, hfound⟩ :=
    graphObject_findings type htails htexts (tailsOf items) names
  refine ⟨rfl, fun finding => ?_⟩
  rw [hfound, hshown, mem_append, enabled_node hlabel, ← h.gathered, gatheredIn]

/-- The objects without texts have no shown variables. -/
theorem isGraph_without_texts (type : String) {area : List (String × Value)}
    (htails : area.lookup "tails" = none) (htexts : area.lookup "text_vars" = none)
    (hlabel : name ∉ closedLabels) (h : CarriesIn inner items) :
    IsGraph (.node name inner)
      (graphObjectOf type (area ++ propertyOf "tails" (tailsOf items))) := by
  simpa [propertyOf] using isGraph_of_properties type htails htexts [] hlabel h

theorem isGraph_areaObject (type : String) (h : CarriesIn inner items)
    (hlabel : name ∉ closedLabels) :
    IsGraph (.node name inner) (Build.areaObject type items) :=
  isGraph_without_texts type (lookup_areaOf (by decide) items) (lookup_areaOf (by decide) items)
    hlabel h

theorem isGraph_plainObject (type : String) (h : CarriesIn inner items)
    (hlabel : name ∉ closedLabels) :
    IsGraph (.node name inner) (Build.plainObject type items) :=
  @isGraph_without_texts name inner items type [] rfl rfl hlabel h

theorem isGraph_textObject (hbuilt : Build.textObject items = .ok v)
    (h : CarriesIn inner items) : IsGraph (.node "text_object" inner) v := by
  unfold Build.textObject at hbuilt
  cases hnames : Build.namedTexts [] items with
  | error cause =>
    rw [hnames] at hbuilt
    cases hbuilt
  | ok names =>
    rw [hnames] at hbuilt
    cases hbuilt
    exact isGraph_of_properties "TextObject" (lookup_areaOf (by decide) items)
      (lookup_areaOf (by decide) items) names (by decide) h

/-- A graphical object around which nothing else stands is taken as it is. -/
theorem isGraph_graphObject (h : OfRule partSpec "graph_object" inner items)
    (hbuilt : Build.graphObject items = .ok v) : IsGraph (.node "graph_object" inner) v := by
  obtain ⟨_, hrow, hparts⟩ := h.row (by repeat constructor)
  obtain ⟨part, hpart, tree, object, rfl, rfl, hobject⟩ := hparts.of_names ["text_object",
    "rectangle_object", "line_object", "oval_object", "polygon_object", "segment_object",
    "composite_object"] hrow
  have hgraph := hobject.graph (mem_append_left ["graph_object"] hpart)
  have hself : Build.graphObject [object] = .ok object := by
    have hkind := hgraph.isElement
    cases object with
    | element kind fields =>
      obtain rfl : kind = .graphObject := by simpa [Value.isElement] using hkind
      rfl
    | _ => cases hkind
  rw [hself] at hbuilt
  cases hbuilt
  exact hgraph.node (by decide)

theorem graph_kept (hname : name ∈ graphNames) (h : OfRule partSpec name inner items)
    (hbuilt : constructed name items = .ok v) : IsGraph (.node name inner) v := by
  simp only [graphNames, mem_cons, not_mem_nil, or_false] at hname
  rcases hname with rfl | rfl | rfl | rfl | rfl | rfl | rfl | rfl
  case inr.inr.inr.inr.inr.inr.inr => exact isGraph_graphObject h hbuilt
  all_goals have hcarries := carriesIn_of_builds (h.only (by repeat constructor)) (by decide)
  · exact isGraph_textObject hbuilt hcarries
  all_goals
    cases hbuilt
    first
    | exact isGraph_areaObject _ hcarries (by decide)
    | exact isGraph_plainObject _ hcarries (by decide)

theorem Plain.bodyOf (h : Plain v) : bodies (Build.bodyOf v) = [] := by
  unfold Build.bodyOf
  split
  · rw [← h.2, body_tree rfl]
  · rw [← h.2, body]
  · exact bodies_nil

theorem body_orNull (items : List Value) : body (orNull items) = bodies items := by
  cases items with
  | nil =>
    rw [bodies_nil]
    exact plain_null.2
  | cons v rest =>
    have hlist : orNull (v :: rest) = .list (v :: rest) := rfl
    rw [hlist, body]

theorem plain_of_rounds {alternatives : List (List Part)}
    (h : Rounds partSpec alternatives inner items)
    (hwithin : alternativesWithin plainNames alternatives = true) :
    AllPlain items ∧ enablingsIn inner = [] := by
  induction h with
  | nil => simp [AllPlain]
  | cons hrow hfirst _ ih =>
    obtain ⟨hplain, hno⟩ := plain_of_builds hfirst (rowWithin_of_mem hwithin hrow)
    exact ⟨forall_mem_append.mpr ⟨hplain, ih.1⟩, by simp [hno, ih.2]⟩

theorem AllPlain.bodyOf (h : AllPlain items) : bodies (items.flatMap Build.bodyOf) = [] := by
  induction items with
  | nil => exact bodies_nil
  | cons v rest ih =>
    obtain ⟨hv, hrest⟩ := forall_mem_cons.mp h
    rw [flatMap_cons, bodies_append, hv.bodyOf, ih hrest, append_nil]

theorem isInteraction_simple (h : OfRule partSpec "interact_simple_item" inner items) :
    IsInteraction (.node "interact_simple_item" inner) (Build.simpleInteraction items) := by
  refine ⟨rfl, fun finding => ?_⟩
  have hfound : interactObject (Build.simpleInteraction items) =
      bodies (items.flatMap Build.bodyOf) := by
    have hparts : interactObject (Build.simpleInteraction items) = inItems tail .null ++
        body (orNull (items.flatMap Build.bodyOf)) ++ procedure .null := rfl
    have htails : inItems tail .null = [] := rfl
    have hcall : procedure .null = [] := rfl
    rw [hparts, htails, hcall, body_orNull, nil_append, append_nil]
  obtain ⟨first, type, _, _, rfl, rfl, htype, hparts₁⟩ := (h.only (by repeat constructor)).of_rule
  obtain ⟨areaTrees, areas, _, _, rfl, rfl, hareas, hparts₂⟩ := hparts₁.of_some1
  obtain ⟨last, seq, rfl, rfl, hseq⟩ := hparts₂.of_lone
  obtain ⟨htypePlain, htypeNone⟩ := htype.plain (by decide)
  obtain ⟨hareasPlain, hareasNone⟩ := plain_of_rounds hareas (by decide)
  obtain ⟨children, rfl⟩ := hseq.unopened (by decide)
  have hseqBody : bodies (Build.bodyOf (.tree "interact_body_seq" true children)) =
      body (.tree "interact_body_seq" true children) := (body_tree rfl true children).symm
  rw [hfound, enabled_node (by decide), enabledIn_cons, enabledIn_append,
    enabledIn_cons, flatMap_cons, flatMap_append, flatMap_cons, bodies_append,
    bodies_append, bodies_append, htypePlain.bodyOf, hareasPlain.bodyOf, hseqBody]
  simp [Enabled, EnabledIn, htypeNone, hareasNone, bodies_nil, (hseq.carries (by decide)).body]

/-- Nothing is found in a procedure button: its call is kept without its key, and its other parts
are not looked at. -/
theorem isInteraction_button (h : OfRule partSpec "combutproc_item" inner items) :
    IsInteraction (.node "combutproc_item" inner) (procedureButton items) := by
  obtain ⟨_, symbol, _, _, rfl, rfl, hparts₁⟩ :=
    (h.only (by repeat constructor)).of_keyword fun _ => rfl
  obtain ⟨_, areas, _, _, rfl, rfl, hareas, hparts₂⟩ := hparts₁.of_some1
  obtain ⟨_, _, _, _, rfl, rfl, hcall, hparts₃⟩ := hparts₂.of_rule
  obtain ⟨_, others, _, _, rfl, rfl, hothers, hnil⟩ := hparts₃.of_many
  cases hnil
  obtain ⟨called, arguments, rfl⟩ := hcall.call rfl
  generalize hcalled : Value.dict [.text "name", .text "args"] [called, arguments] = call
  generalize hall : (.token "COMBUTPROC" symbol :: (areas ++
    (Value.dict [.text "procedure_call"] [call] :: (others ++ []))) : List Value) = all
  have htuples : ∀ w ∈ areas, isOtherDict w = false ∧ proceduresOf w = [] := by
    refine hareas.forall_items fun _ w hw => ?_
    have htuple := hw.area (by decide)
    cases w with
    | tuple _ => exact ⟨rfl, rfl⟩
    | _ => cases htuple
  have htrees : ∀ w ∈ others, isOtherDict w = false ∧ proceduresOf w = [] := by
    refine hothers.forall_items fun _ w hw => ?_
    obtain ⟨children, rfl⟩ := hw.unopened (by decide)
    exact ⟨rfl, rfl⟩
  have hfiltered : all.filter isOtherDict = [] := by
    subst hall
    simp only [append_nil, filter_eq_nil_iff, forall_mem_cons, forall_mem_append]
    exact ⟨nofun, fun w hw => by simp [htuples w hw], nofun, fun w hw => by simp [htrees w hw]⟩
  have hcalls : all.flatMap proceduresOf = [call] := by
    subst hall
    rw [append_nil, flatMap_cons, flatMap_append, flatMap_cons,
      flatMap_eq_nil_iff.mpr fun w hw => (htuples w hw).2,
      flatMap_eq_nil_iff.mpr fun w hw => (htrees w hw).2]
    rfl
  have hholds : call.holds = true := by
    subst hcalled
    rfl
  have hbutton : procedureButton all = Build.interactObjectOf (.text "ComButProc_")
      [("coords", orNull (all.filter Value.isTuple)), ("procedure", call)] := by
    simp [procedureButton, hfiltered, hcalls, hholds, propertyOf]
  have hfound : interactObject (procedureButton all) = [] := by
    have hparts : ∀ coords call : Value, interactObject (Build.interactObjectOf
        (.text "ComButProc_") [("coords", coords), ("procedure", call)]) =
          inItems tail .null ++ body .null ++ procedure call := fun _ _ => rfl
    have htails : inItems tail .null = [] := rfl
    have hprocedure : procedure call = [] := by
      subst hcalled
      rfl
    rw [hbutton, hparts, htails, plain_null.2, hprocedure]
    rfl
  refine ⟨by rw [hbutton]; rfl, fun finding => ?_⟩
  simp [hfound, Enabled, enablings]

theorem interaction_kept (hname : name ∈ interactionNames) (h : OfRule partSpec name inner items)
    (hbuilt : constructed name items = .ok v) : IsInteraction (.node name inner) v := by
  simp only [interactionNames, mem_cons, not_mem_nil, or_false] at hname
  rcases hname with rfl | rfl
  · cases hbuilt
    exact isInteraction_simple h
  · cases hbuilt
    exact isInteraction_button h

theorem item_kept (h : OfRule partSpec "interact_item" inner items)
    (hbuilt : constructed "interact_item" items = .ok v) :
    ∃ object, v = .tree "interact_item" true [object] ∧
      IsInteraction (.node "interact_item" inner) object := by
  cases hbuilt
  obtain ⟨_, hrow, hparts⟩ := h.row (by repeat constructor)
  obtain ⟨part, hpart, tree, object, rfl, rfl, hobject⟩ :=
    hparts.of_names ["combutproc_item", "interact_simple_item"] hrow
  have hinteraction := hobject.interaction (by simpa [interactionNames, or_comm] using hpart)
  exact ⟨object, rfl, hinteraction.node (by decide)⟩

theorem area_kept (hname : name ∈ ["origo_size_pair", "clippingbounds"])
    (h : OfRule partSpec name inner items) (hbuilt : constructed name items = .ok v) :
    v.isTuple = true := by
  simp only [mem_cons, not_mem_nil, or_false] at hname
  rcases hname with rfl | rfl
  · obtain ⟨fields, rfl⟩ := tuple_of_origoSizePair hbuilt
    rfl
  · obtain ⟨_, symbol, _, _, rfl, rfl, hparts⟩ :=
    (h.only (by repeat constructor)).of_keyword fun _ => rfl
    obtain ⟨_, area, rfl, rfl, harea⟩ := hparts.of_mark.of_lone
    cases hbuilt
    exact harea.area (by decide)

theorem unopened_kept (hname : name ∈ ["interact_body_seq", "combutproc_tail", "moduledef_opts"])
    (hbuilt : constructed name items = .ok v) : ∃ children, v = .tree name true children := by
  simp only [mem_cons, not_mem_nil, or_false] at hname
  rcases hname with rfl | rfl | rfl <;> cases hbuilt <;> exact ⟨_, rfl⟩

theorem call_kept (hbuilt : constructed "procedure_call" items = .ok v) :
    ∃ called arguments, v = .dict [.text "procedure_call"]
      [.dict [.text "name", .text "args"] [called, arguments]] := by
  cases hbuilt
  exact ⟨_, _, rfl⟩

theorem areGraphs_rounds (h : Rounds partSpec [[.rule "graph_object"]] inner items) :
    AreGraphs inner items := by
  induction h with
  | nil => exact areObjects_nil
  | cons hrow hfirst _ ih =>
    obtain rfl := mem_singleton.mp hrow
    obtain ⟨tree, object, rfl, rfl, hobject⟩ := hfirst.of_lone
    exact .cons (hobject.graph (by decide)) ih

theorem graphs_kept (h : OfRule partSpec "graph_objects" inner items)
    (hbuilt : constructed "graph_objects" items = .ok v) :
    ∃ objects, v = .list objects ∧ AreGraphs [.node "graph_objects" inner] objects := by
  cases hbuilt
  obtain ⟨_, symbol, _, _, rfl, rfl, hparts⟩ :=
    (h.only (by repeat constructor)).of_keyword fun _ => rfl
  obtain ⟨_, objects, _, _, rfl, rfl, hrounds, hnil⟩ := hparts.of_mark.of_some1
  cases hnil
  have hgraphs := areGraphs_rounds hrounds
  have hkept : (.token "GRAPHOBJECTS" symbol :: (objects ++ [])).filter
      (Value.isElement .graphObject) = objects := by
    rw [append_nil, filter_cons_of_neg (by simp [Value.isElement]),
      filter_eq_self]
    exact hgraphs.isElement
  exact ⟨objects, by rw [hkept], hgraphs.node (by decide)⟩

/-- The interactive objects among the items and in their trees. -/
theorem areInteractions_rounds (h : Rounds partSpec [[.rule "interact_item"]] inner items) :
    ∃ objects, interactObjects items = .list objects ∧ AreInteractions inner objects := by
  induction h with
  | nil => exact ⟨[], rfl, areObjects_nil⟩
  | @cons row first values trees items hrow hfirst _ ih =>
    obtain rfl := mem_singleton.mp hrow
    obtain ⟨tree, _, rfl, rfl, hitem⟩ := hfirst.of_lone
    obtain ⟨object, rfl, hobject⟩ := hitem.item rfl
    obtain ⟨objects, hobjects, hall⟩ := ih
    have hopened : interactObjects ([Value.tree "interact_item" true [object]] ++ items) =
        .list (object :: objects) := by
      have hothers := Value.list.inj hobjects
      simp only [interactObjects, singleton_append, flatMap_cons]
      rw [hothers]
      change Value.list ([object].filter (Value.isElement .interactObject) ++ objects) = _
      rw [filter_cons_of_pos hobject.isElement, filter_nil, singleton_append]
    exact ⟨object :: objects, hopened, .cons hobject hall⟩

theorem interactions_kept (h : OfRule partSpec "interact_objects" inner items)
    (hbuilt : constructed "interact_objects" items = .ok v) :
    ∃ objects, v = .list objects ∧ AreInteractions [.node "interact_objects" inner] objects := by
  cases hbuilt
  obtain ⟨_, symbol, _, _, rfl, rfl, hparts⟩ :=
    (h.only (by repeat constructor)).of_keyword fun _ => rfl
  obtain ⟨_, rounds, _, _, rfl, rfl, hrounds, hnil⟩ := hparts.of_mark.of_some1
  cases hnil
  obtain ⟨objects, hobjects, hall⟩ := areInteractions_rounds hrounds
  have hfirst : interactObjects (.token "INTERACTOBJECTS" symbol :: (rounds ++ [])) =
      interactObjects rounds := by
    simp [interactObjects, Value.isElement, Value.children?]
  exact ⟨objects, hfirst.trans hobjects, hall.node (by decide)⟩

end Kept

theorem partSpec_kept : partSpec.Kept := by
  intro name rule row inner items tree v hrule hrow hparts hitems hleave hv
  have hof : OfRule partSpec name inner items := ⟨rule, row, hrule, hrow, hparts⟩
  have hplain := fun hname => @plain_kept name _ _ _ _ _ _ hname hrule hrow hparts hitems hleave hv
  by_cases hmem : name ∈ nodeNames
  · obtain ⟨rfl, hbuilt⟩ := node_kept hmem hrule hitems hleave hv
    refine ⟨hplain, fun hname => carrier_kept hname hof hv hbuilt,
      fun hname => graph_kept hname hof hbuilt, fun hname => interaction_kept hname hof hbuilt, ?_,
      fun hname => area_kept hname hof hbuilt, fun hname => unopened_kept hname hbuilt, ?_, ?_, ?_⟩
    all_goals rintro rfl
    · exact item_kept hof hbuilt
    · exact call_kept hbuilt
    · exact graphs_kept hof hbuilt
    · exact interactions_kept hof hbuilt
  · constructor
    case plain => exact hplain
    all_goals exact fun hname => absurd (by simp_all [nodeNames, carrierNames]) hmem

/-- What is found in the texts that a picture shows. -/
def shownBy : Value → List Finding
  | .element .moduleDef [_, _, _, _, _, graphs, _] => inItems shownIn graphs
  | _ => []

/-- The definition of a picture with this area and these objects. -/
def drawingOf (area : Value) (graphs interactions : List Value) : Value :=
  .element .moduleDef [area, .null, .null, .real Element.usualGrid, .bool false, .list graphs,
    .list interactions]

section Definition

variable {area : Value} {graphs interactions objects : List Value} {trees : List Tree}

theorem addToDefinition_area {v : Value} (h : v.isTuple = true) :
    ∃ corners, addToDefinition (drawingOf area graphs interactions) v =
      .ok (drawingOf corners graphs interactions) := by
  cases v with
  | tuple fields =>
    by_cases hpair : (Value.tuple fields).isTuplePair = true
    · refine ⟨.tuple fields, ?_⟩
      simp only [addToDefinition, hpair]
      rfl
    · refine ⟨area, ?_⟩
      simp only [addToDefinition, hpair]
      rfl
  | _ => cases h

theorem addToDefinition_graphs (h : AreGraphs trees objects) :
    addToDefinition (drawingOf area [] interactions) (.list objects) =
      .ok (drawingOf area objects interactions) := by
  cases objects with
  | nil => rfl
  | cons first rest =>
    simp only [addToDefinition, h.isElement first mem_cons_self]
    rfl

theorem addToDefinition_interactions (h : AreInteractions trees objects) :
    addToDefinition (drawingOf area graphs []) (.list objects) =
      .ok (drawingOf area graphs objects) := by
  cases objects with
  | nil => rfl
  | cons first rest =>
    have hinteraction := h.isElement first mem_cons_self
    have hgraph : first.isElement .graphObject = false := by
      cases first with
      | element kind fields =>
        obtain rfl : kind = .interactObject := by simpa [Value.isElement] using hinteraction
        rfl
      | _ => rfl
    simp only [addToDefinition, hinteraction, hgraph]
    rfl

/-- The objects of a picture, which may be left out. -/
theorem objects_part {name : String} {rest : List Part} {inner : List Tree} {items : List Value}
    {P : List Tree → List Value → Prop} (hnone : P [] [])
    (hsome : ∀ {tree v}, IsPart name tree v → ∃ objects, v = .list objects ∧ P [tree] objects)
    (h : Builds partSpec (.opt [[.rule name]] :: rest) inner items) :
    ∃ first values objects others following, inner = first ++ others ∧
      items = values ++ following ∧ (values = [] ∧ objects = [] ∨ values = [.list objects]) ∧
        P first objects ∧ Builds partSpec rest others following := by
  rcases h.of_opt with ⟨_, hrow, _, _, others, following, rfl, rfl, hfirst, hrest⟩ | hrest
  · obtain rfl := mem_singleton.mp hrow
    obtain ⟨tree, _, rfl, rfl, hv⟩ := hfirst.of_lone
    obtain ⟨objects, rfl, hobjects⟩ := hsome hv
    exact ⟨[tree], _, objects, others, following, rfl, rfl, .inr rfl, hobjects, hrest⟩
  · exact ⟨[], [], [], inner, items, rfl, rfl, .inl ⟨rfl, rfl⟩, hnone, hrest⟩

/-- Besides the variables shown in texts, the graphics of a module refer to just the tails of its
enabling parts. -/
theorem definition_findings {tree : Tree} (htree : IsOf "moduledef" tree) {v : Value}
    (hv : valueOf tree = .ok v) (finding : Finding) :
    finding ∈ definition v ↔ finding ∈ shownBy v ∨ Enabled tree finding := by
  obtain ⟨_, row, inner, hrule, hrow, hinner, hleave⟩ := htree.parts
  cases hrule
  cases hleave
  obtain rfl := mem_singleton.mp hrow
  obtain ⟨items, hitems, hbuilt⟩ := valueOf_node_eq_ok.mp hv
  have hdefinition : Build.moduleDef items = .ok v := hbuilt
  have hparts := partSpec_kept.builds hinner hitems
  obtain ⟨_, symbol, _, _, rfl, rfl, hparts₁⟩ := hparts.of_keyword fun _ => rfl
  obtain ⟨clipTree, clip, _, _, rfl, rfl, hclip, hparts₂⟩ := hparts₁.of_rule
  obtain ⟨optsTree, _, _, _, rfl, rfl, hopts, hparts₃⟩ := hparts₂.of_rule
  obtain ⟨graphTrees, graphItems, graphs, _, _, rfl, rfl, hgraphItems, hgraphs, hparts₄⟩ :=
    objects_part areObjects_nil (fun hv => hv.graphs rfl) hparts₃
  obtain ⟨interactTrees, interactItems, interactions, _, _, rfl, rfl, hinteractItems,
    hinteractions, hnil⟩ := objects_part areObjects_nil (fun hv => hv.interactions rfl) hparts₄
  cases hnil
  obtain ⟨children, rfl⟩ := hopts.unopened (by decide)
  obtain ⟨corners, hcorners⟩ := @addToDefinition_area .null [] [] clip (hclip.area (by decide))
  have hfolded : v = drawingOf corners graphs interactions := by
    have hstart : Value.ofFields .moduleDef [] = drawingOf .null [] [] := rfl
    have hkeyword : addToDefinition (drawingOf .null [] []) (.token "MODULEDEF" symbol) =
        .ok (drawingOf .null [] []) := rfl
    have hoptions : addToDefinition (drawingOf corners [] [])
        (.tree "moduledef_opts" true children) = .ok (drawingOf corners [] []) := rfl
    have hwithGraphs : graphItems.foldlM addToDefinition (drawingOf corners [] []) =
        .ok (drawingOf corners graphs []) := by
      rcases hgraphItems with ⟨rfl, rfl⟩ | rfl
      · rfl
      · rw [foldlM_cons, addToDefinition_graphs hgraphs]
        rfl
    have hwithAll : interactItems.foldlM addToDefinition (drawingOf corners graphs []) =
        .ok (drawingOf corners graphs interactions) := by
      rcases hinteractItems with ⟨rfl, rfl⟩ | rfl
      · rfl
      · rw [foldlM_cons, addToDefinition_interactions hinteractions]
        rfl
    simp only [Build.moduleDef, hstart, foldlM_cons, foldlM_append, append_nil,
      hkeyword, hcorners, hoptions, hwithGraphs, hwithAll, bind, Except.bind, Except.ok.injEq]
      at hdefinition
    exact hdefinition.symm
  subst hfolded
  have hfound : definition (drawingOf corners graphs interactions) =
      graphs.flatMap graphObject ++ interactions.flatMap interactObject := rfl
  have hshown : shownBy (drawingOf corners graphs interactions) = graphs.flatMap shownIn := rfl
  rw [hfound, hshown, mem_append, hgraphs.findings, hinteractions.findings,
    enabled_node (by decide), enabledIn_cons, enabledIn_cons, enabledIn_cons,
    enabledIn_append, enabledIn_append]
  simp [Enabled, EnabledIn, (hclip.plain (by decide)).2, (hopts.plain (by decide)).2, or_assoc]

end Definition

end SattLine.Usage
