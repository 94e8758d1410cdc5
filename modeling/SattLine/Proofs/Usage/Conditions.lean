import SattLine.Proofs.Build.Program
import SattLine.Proofs.Usage.Termination

/-!
When the analysis of a program that was built from a text returns. Everything in such a program has
the shape that the analysis looks for, apart from the conditions under which modules and objects are
enabled, which may be numbers. Main statement: the analysis returns exactly if none of them is one.
-/

namespace SattLine

namespace Usage

open Build (valueOf built_of_valueOf IsEnabling valued)
open Syntax (Tree Forms IsOf leave leave_eq labelOf lexemes lexemesIn ruleNamed?_eq_some_iff
  lexemesIn_leave)

set_option maxRecDepth 4000 in
theorem name_of_enable : ∀ rule ∈ Grammar.rules, labelOf rule.shape = "enable" →
    rule.name = "enable" := by
  decide

/-- The enabling parts in a row of trees are trees of the language with lexemes of the row. -/
def Enablings (trees : List Tree) : Prop :=
  ∀ node ∈ enablingsIn trees, IsOf "enable" node ∧ lexemes node ⊆ lexemesIn trees

theorem Enablings.append {first rest : List Tree} (hfirst : Enablings first)
    (hrest : Enablings rest) : Enablings (first ++ rest) := by
  intro node hnode
  rw [enablingsIn_append, List.mem_append] at hnode
  rw [Syntax.lexemesIn_append]
  rcases hnode with hnode | hnode
  · exact (hfirst node hnode).imp_right (List.Subset.trans · (List.subset_append_left _ _))
  · exact (hrest node hnode).imp_right (List.Subset.trans · (List.subset_append_right _ _))

variable {row : List Grammar.Part} {drawing : Value}

theorem Enablings.leave {name : String} {rule : Grammar.Rule} {inner : List Tree}
    (hrule : Syntax.ruleNamed? name = some rule) (hrow : row ∈ rule.alternatives)
    (hinner : Forms row inner) (h : Enablings inner) : Enablings (leave rule.shape inner) := by
  intro node hnode
  rw [lexemesIn_leave]
  -- A rule leaves a node, or what its only part has left.
  obtain ⟨tree, hleave, rfl | ⟨rfl, -⟩⟩ := leave_eq hrule inner
  · rw [hleave, enablingsIn_cons, enablingsIn_nil, List.append_nil, enablings] at hnode
    split at hnode
    · next hlabel =>
      obtain rfl := List.mem_singleton.mp hnode
      obtain ⟨hmem, hname⟩ := ruleNamed?_eq_some_iff.mp hrule
      have henable := name_of_enable rule hmem (beq_iff_eq.mp hlabel)
      rw [← hname, henable] at hrule
      exact ⟨.of_row hrule hrow hinner hleave, by simp [lexemes]⟩
    · split at hnode
      · cases hnode
      · exact h node hnode
  · rw [hleave] at hnode
    exact h node hnode

/-- The enabling parts of trees of the language are trees of the rule of such parts. -/
theorem enablings_of_forms {trees : List Tree} (h : Forms row trees) : Enablings trees := by
  induction h with
  | nil => simp [Enablings]
  | @token _ _ lexeme _ _ _ ih =>
    have hleaf : Enablings [.leaf lexeme] := by simp [Enablings]
    exact hleaf.append ih
  | mark _ ih => exact ih
  | rule hrule hrow hinner _ ihinner ih => exact (ihinner.leave hrule hrow hinner).append ih
  | oneOf _ _ _ ihfirst ih | opt _ _ _ ihfirst ih => exact ihfirst.append ih
  | skip _ ih => exact ih
  | more _ _ _ ihfirst ih => exact ihfirst.append ih
  | stop _ ih => exact ih
  | some1 _ _ _ ihfirst ih => exact ihfirst.append ih

/-- `EnabledBy drawing condition`: one of the objects in a drawing is enabled by the condition. -/
def EnabledBy (drawing condition : Value) : Prop :=
  ∃ tree, IsOf "moduledef" tree ∧ (∀ lexeme ∈ lexemes tree, lexeme.Lexed) ∧
    valueOf tree = .ok drawing ∧
      ∃ node ∈ enablings tree, ∃ v, valueOf node = .ok v ∧ v.getOrNull "tail" = condition

/-- The condition of an object is an operand, if there is one. -/
theorem EnabledBy.condition {condition : Value} (h : EnabledBy drawing condition) :
    Condition condition := by
  obtain ⟨tree, htree, hlexed, -, node, hnode, v, hv, rfl⟩ := h
  obtain ⟨hof, hsubset⟩ := enablings_of_forms htree node (by simpa using hnode)
  have hbuilt := built_of_valueOf hof (fun lexeme hl => hlexed lexeme (by
    simpa [lexemesIn] using hsubset hl)) hv
  have hpromised : IsEnabling v := hbuilt.keeps (valued IsEnabling) (by repeat constructor)
  obtain ⟨b, condition, rfl, hcondition⟩ := hpromised
  exact hcondition

theorem EnabledBy.isNumber_eq_false {condition : Value} (h : EnabledBy drawing condition)
    (hfaultless : Faultless (definition drawing)) : condition.isNumber = false := by
  refine h.condition.faultless_tail_iff.mp fun problem hproblem => ?_
  obtain ⟨tree, htree, -, hvalue, node, hnode, v, hv, rfl⟩ := h
  exact hfaultless problem ((definition_findings htree hvalue _).mpr
    (.inr ⟨node, hnode, v, hv, hproblem⟩))

/-- Nothing in a drawing is of the wrong shape exactly if no condition is a number. -/
theorem faultless_definition_iff {code : Value} (h : WellBodied drawing code) :
    Faultless (definition drawing) ↔
      ∀ condition, EnabledBy drawing condition → condition.isNumber = false := by
  constructor
  · exact fun hfaultless condition hcondition => hcondition.isNumber_eq_false hfaultless
  · intro hnumbers
    rcases h.definition with rfl | hdrawing
    · exact faultless_nil
    · obtain ⟨tree, htree, hlexed, hvalue⟩ := hdrawing.described
      intro problem hproblem
      rcases (definition_findings htree hvalue _).mp hproblem with
        hshown | ⟨node, hnode, v, hv, htail⟩
      · exact hdrawing.shown problem hshown
      · have henabled : EnabledBy drawing (v.getOrNull "tail") :=
          ⟨tree, htree, hlexed, hvalue, node, hnode, v, hv, rfl⟩
        exact henabled.condition.faultless_tail_iff.mpr (hnumbers _ henabled) problem htail

theorem faultless_header_iff {h : Header} (hinvoked : WellInvoked h) :
    Faultless (header h) ↔ h.enableTail.isNumber = false := by
  rw [header, faultless_append, hinvoked.condition.faultless_tail_iff]
  exact and_iff_left (faultless_referenceAccesses hinvoked.group _ _)

end Usage

open Usage
open Syntax (Tree IsOf lexemes word)

/-- A condition in a module: its own or that of an object. -/
inductive Module.HasCondition : Module → Value → Prop
  | single {info inner} : HasCondition (.single info inner) info.header.enableTail
  | frame {info inner} : HasCondition (.frame info inner) info.header.enableTail
  | typed {info} : HasCondition (.typed info) info.header.enableTail
  | inSingle {info inner condition} (h : EnabledBy info.definition condition) :
      HasCondition (.single info inner) condition
  | inFrame {info inner condition} (h : EnabledBy info.definition condition) :
      HasCondition (.frame info inner) condition

/-- A condition somewhere in a program. -/
inductive Picture.HasCondition (p : Picture) : Value → Prop
  | own : HasCondition p p.header.enableTail
  | drawn {condition} (h : EnabledBy p.definition condition) : HasCondition p condition
  | module {m condition} (hm : Module.Inside p.submodules m) (h : m.HasCondition condition) :
      HasCondition p condition
  | type {type condition} (htype : type ∈ p.types) (h : EnabledBy type.definition condition) :
      HasCondition p condition
  | typeModule {type m condition} (htype : type ∈ p.types)
      (hm : Module.Inside type.submodules m) (h : m.HasCondition condition) :
      HasCondition p condition

variable {m : Module} {p : Picture}

theorem Module.WellMade.orderly (h : m.WellMade) : Orderly m := by
  cases h with
  | single _ _ hmappings =>
    refine ⟨?_, hmappings⟩
    intro v hv
    cases hv
  | frame =>
    refine ⟨?_, by simp [Module.mappings]⟩
    intro v hv
    cases hv
  | typed _ hmappings =>
    refine ⟨?_, hmappings⟩
    intro v hv
    cases hv

theorem Module.WellMade.faultless_iff (h : m.WellMade) :
    Faultless m.findings ↔ ∀ condition, m.HasCondition condition → condition.isNumber = false := by
  cases h with
  | single hheader hbody _ =>
    simp only [Module.findings, faultless_append, faultless_header_iff hheader,
      faultless_definition_iff hbody, hbody.code, and_true]
    constructor
    · rintro ⟨hown, hdrawn⟩ condition (_ | _ | _ | h)
      · exact hown
      · exact hdrawn condition h
    · exact fun h => ⟨h _ .single, fun condition hdrawn => h condition (.inSingle hdrawn)⟩
  | frame hheader hbody =>
    simp only [Module.findings, faultless_append, faultless_header_iff hheader,
      faultless_definition_iff hbody, hbody.code, and_true]
    constructor
    · rintro ⟨hown, hdrawn⟩ condition (_ | _ | _ | _ | h)
      · exact hown
      · exact hdrawn condition h
    · exact fun h => ⟨h _ .frame, fun condition hdrawn => h condition (.inFrame hdrawn)⟩
  | typed hheader _ =>
    rw [Module.findings, faultless_header_iff hheader]
    constructor
    · rintro hown condition ⟨⟩
      exact hown
    · exact fun h => h _ .typed

theorem Picture.WellMade.orderly (h : p.WellMade) : OrderlyPicture p where
  header := h.named
  modules m hm := (h.modules m hm).orderly
  types type htype := ⟨fun m hm => ((h.types type htype).modules m hm).orderly,
    (h.types type htype).mappings⟩
  own type htype := by
    rw [Picture.isOwnFile, (h.types type htype).origin]
    rfl

theorem Picture.WellMade.faultless_iff (h : p.WellMade) :
    FaultlessPicture p ↔
      ∀ condition, p.HasCondition condition → condition.isNumber = false := by
  constructor
  · intro hfaultless condition hcondition
    cases hcondition with
    | own => exact (faultless_header_iff h.header).mp hfaultless.header
    | drawn hdrawn => exact (faultless_definition_iff h.body).mp hfaultless.definition _ hdrawn
    | module hm hstated =>
      exact (h.modules _ hm).faultless_iff.mp (hfaultless.modules _ hm) _ hstated
    | type htype hdrawn =>
      have hown := (hfaultless.types _ htype).own
      simp only [TypeDef.findings, faultless_append] at hown
      exact (faultless_definition_iff (h.types _ htype).body).mp hown.1.1 _ hdrawn
    | typeModule htype hm hstated =>
      exact ((h.types _ htype).modules _ hm).faultless_iff.mp
        ((hfaultless.types _ htype).modules _ hm) _ hstated
  · intro hnumbers
    refine ⟨(faultless_header_iff h.header).mpr (hnumbers _ .own),
      (faultless_definition_iff h.body).mpr fun c hc => hnumbers c (.drawn hc), h.body.code,
      fun m hm => (h.modules m hm).faultless_iff.mpr fun c hc => hnumbers c (.module hm hc),
      fun type htype => ?_⟩
    have hmade := h.types type htype
    refine ⟨?_, fun m hm => (hmade.modules m hm).faultless_iff.mpr fun c hc =>
      hnumbers c (.typeModule htype hm hc)⟩
    simp only [TypeDef.findings, faultless_append]
    exact ⟨⟨(faultless_definition_iff hmade.body).mpr fun c hc => hnumbers c (.type htype hc),
      hmade.body.code⟩, faultless_referenceAccesses hmade.group _ _⟩

/-- The analysis returns exactly if none of the conditions under which modules and objects are
enabled is a number. If no module type contains an instance of itself and no variable is linked to
itself, then no bound of the analysis plays a part: its depth is not used up, whatever would be done
then, and going over the places of each linked variable ends with the marks that it goes on with. -/
def Picture.ReturnsUnlessNumbered (p : Picture) (marks : Marks) : Prop :=
  ((∃ issues, (analyze p marks).1 = .ok issues) ↔
    ∀ condition, p.HasCondition condition → condition.isNumber = false) ∧
  (p.Acyclic → (∀ link ∈ (walked p marks).aliases, link.1.id ≠ link.2.id) →
    (∀ beyond, analysisBy p (walkTypeBeyond p beyond p.types.length) = analysis p) ∧
      PassedAll (walked p marks).aliases (walked p marks).marks (linked p marks))

theorem Picture.WellMade.returnsUnlessNumbered (h : p.WellMade) (marks : Marks) :
    p.ReturnsUnlessNumbered marks :=
  ⟨(analyze_returns_iff h.orderly marks).trans h.faultless_iff, fun hac hlinks =>
    ⟨fun _ => analysisBy_beyond hac le_rfl, passedAll_replay hlinks _⟩⟩

/-- Every program built from a text can be read, and its analysis returns exactly if none of the
conditions under which its modules and objects are enabled is a number. So it is with any program
that is built from a tree of the language. -/
theorem analysis_returns_iff (source : String) (start : Marks) :
    (∀ v, Build.program source = .ok v → ∃ p marks, v.toPicture.run start = .ok (p, marks)) ∧
      (∀ v p marks, Build.program source = .ok v → v.toPicture.run start = .ok (p, marks) →
        p.ReturnsUnlessNumbered marks) ∧
      ∀ tree v, IsOf "start" tree → (∀ lexeme ∈ lexemes tree, lexeme.Lexed) →
        Build.valueOf tree = .ok v →
          ∃ p marks, v.toPicture.run start = .ok (p, marks) ∧ p.ReturnsUnlessNumbered marks := by
  have htrees : ∀ tree v, IsOf "start" tree → (∀ lexeme ∈ lexemes tree, lexeme.Lexed) →
      Build.valueOf tree = .ok v →
        ∃ p marks, v.toPicture.run start = .ok (p, marks) ∧ p.ReturnsUnlessNumbered marks := by
    intro tree v htree hlexed hvalue
    have hbuilt := Build.built_of_valueOf htree hlexed hvalue
    have hkind : v.isElement .basePicture = true :=
      hbuilt.promised (Build.ofKind .basePicture) (by repeat constructor)
    obtain ⟨fields, rfl, hreads⟩ := hbuilt.fine.of_isElement hkind
    obtain ⟨p, marks, hrun, hmade⟩ := hreads start
    exact ⟨p, marks, hrun, hmade.returnsUnlessNumbered marks⟩
  have hread : ∀ v, Build.program source = .ok v →
      ∃ p marks, v.toPicture.run start = .ok (p, marks) ∧ p.ReturnsUnlessNumbered marks := by
    intro v hv
    obtain ⟨tree, hparse, hvalue⟩ := Build.program_eq_ok.mp hv
    obtain ⟨htree, hlexed⟩ := Syntax.isOf_of_parseSource hparse
    exact htrees tree v htree hlexed hvalue
  refine ⟨fun v hv => ?_, fun v p marks hv hrun => ?_, htrees⟩
  · obtain ⟨p, marks, hrun, -⟩ := hread v hv
    exact ⟨p, marks, hrun⟩
  · obtain ⟨p', marks', hrun', hreturns⟩ := hread v hv
    cases hrun.symm.trans hrun'
    exact hreturns

namespace Build

/-- The picture of a program that has nothing in it and is enabled by the value of a tail. -/
def tailedPicture (tail : Value) : Picture :=
  ⟨⟨"Plant", originValue, .null, .bool true, .null, .bool false, tail, .null, .bool false⟩,
    .text "BasePicture", originValue, [], [], [], [], emptyDrawing, .null, .null, .null, []⟩

theorem tailed_read (tail : Value) :
    (programValue tail).toPicture.run {} = .ok (tailedPicture tail, {}) := rfl

theorem emptyTree_analysis_returns :
    valueOf emptyTree = .ok (programValue .null) ∧
      ∃ issues, (analyze (tailedPicture .null) {}).1 = .ok issues := by
  obtain ⟨p, marks, hrun, hreturns, -⟩ := (analysis_returns_iff "" {}).2.2 emptyTree _ isOf_emptyTree
    lexed_emptyTree valueOf_emptyTree
  cases (tailed_read .null).symm.trans hrun
  refine ⟨valueOf_emptyTree, hreturns.mpr fun condition hcondition => ?_⟩
  cases hcondition with
  | own => rfl
  | drawn h => exact h.isNumber_eq_false faultless_nil
  | module hm _ => exact absurd hm Module.Inside.not_nil
  | type htype _ | typeModule htype _ _ => cases htype

/-! A program with neither module types nor connections, which a number enables. -/

def countedArguments : Tree :=
  .node "arguments" [.node "argument" [.node "enable" [word "ENABLE_PREFIX" "Enable_",
    word "BOOL" "True", .node "invar" [word "INVAR_PREFIX" "InVar_",
      .node "connected_variable" [.node "value" [word "SIGNED_INT" "5"]]]]]]

def countedTree : Tree :=
  programTree (headerTree [countedArguments]) (drawingTree [])

theorem counted_stops : (analyze (tailedPicture (.int 5)) {}).1 = .error (.strangeTail "int" "5") :=
  rfl

/-- The program is of the language and has a value that can be read, but its analysis stops. -/
theorem counted_refused :
    IsOf "start" countedTree ∧ (∀ lexeme ∈ lexemes countedTree, lexeme.Lexed) ∧
      valueOf countedTree = .ok (programValue (.int 5)) ∧
        (programValue (.int 5)).toPicture.run {} = .ok (tailedPicture (.int 5), {}) ∧
          (tailedPicture (.int 5)).types = [] ∧ (tailedPicture (.int 5)).submodules = [] ∧
            (analyze (tailedPicture (.int 5)) {}).1 = .error (.strangeTail "int" "5") :=
  ⟨Syntax.isOf_of_behind 40 (by decide +kernel), Syntax.lexed_of_isWhole (by decide +kernel),
    valueOf_programTree rfl, tailed_read _, rfl, rfl, counted_stops⟩

end Build

end SattLine
