import SattLine.Proofs.Usage.Spelling

/-!
Programs that differ in the letter case of references only: in expressions, in the targets of
assignments, in tails, in scan groups and in connections, and in the names shown by text objects as
long as it does not change whether these are in small letters. Main statement: the analyses of two
such programs mark the same uses.
-/

namespace SattLine

open Usage (NamePlace)

/-- Values at some place that are the same when all references are in small letters. Of the names
that a text object shows it also has to be the same whether they were in small letters before. -/
def Value.Respelled (place : NamePlace) (v v' : Value) : Prop :=
  v'.small place = v.small place

theorem Value.Respelled.refl (place : NamePlace) (v : Value) : v.Respelled place v :=
  rfl

/-- Invocations that differ in the letter case of the enabling tail and the scan group. -/
structure Header.Respelled (h h' : Header) : Prop where
  name : h'.name = h.name
  enableTail : h.enableTail.Respelled .name h'.enableTail
  groupConn : h.groupConn.Respelled .plain h'.groupConn
  groupGlobal : h'.groupGlobal = h.groupGlobal

/-- Connections that differ in the letter case of the parameter and the variable. -/
structure Mapping.Respelled (m m' : Mapping) : Prop where
  target : m.target.Respelled .name m'.target
  source : m.source.Respelled .name m'.source
  isGlobal : m'.isGlobal = m.isGlobal

structure SingleInfo.Respelled (info info' : SingleInfo) : Prop where
  header : info.header.Respelled info'.header
  definition : info.definition.Respelled .plain info'.definition
  code : info.code.Respelled .plain info'.code
  parameters : info'.parameters = info.parameters
  locals : info'.locals = info.locals
  mappings : List.Forall₂ Mapping.Respelled info.mappings info'.mappings

structure FrameInfo.Respelled (info info' : FrameInfo) : Prop where
  header : info.header.Respelled info'.header
  definition : info.definition.Respelled .plain info'.definition
  code : info.code.Respelled .plain info'.code

structure InstanceInfo.Respelled (info info' : InstanceInfo) : Prop where
  header : info.header.Respelled info'.header
  typeName : info'.typeName = info.typeName
  mappings : List.Forall₂ Mapping.Respelled info.mappings info'.mappings

/-- Modules that differ in the letter case of references, down to the innermost. -/
inductive Module.Respelled : List Module → List Module → Prop
  | nil : Module.Respelled [] []
  | single {info info' inner inner' rest rest'} (hinfo : info.Respelled info')
      (hinner : Module.Respelled inner inner') (hrest : Module.Respelled rest rest') :
      Module.Respelled (.single info inner :: rest) (.single info' inner' :: rest')
  | frame {info info' inner inner' rest rest'} (hinfo : info.Respelled info')
      (hinner : Module.Respelled inner inner') (hrest : Module.Respelled rest rest') :
      Module.Respelled (.frame info inner :: rest) (.frame info' inner' :: rest')
  | typed {info info' rest rest'} (hinfo : info.Respelled info')
      (hrest : Module.Respelled rest rest') :
      Module.Respelled (.typed info :: rest) (.typed info' :: rest')
  | stray {rest rest'} (value : Value) (hrest : Module.Respelled rest rest') :
      Module.Respelled (.stray value :: rest) (.stray value :: rest')

structure TypeDef.Respelled (type type' : TypeDef) : Prop where
  name : type'.name = type.name
  parameters : type'.parameters = type.parameters
  locals : type'.locals = type.locals
  submodules : Module.Respelled type.submodules type'.submodules
  definition : type.definition.Respelled .plain type'.definition
  code : type.code.Respelled .plain type'.code
  mappings : List.Forall₂ Mapping.Respelled type.mappings type'.mappings
  groupConn : type.groupConn.Respelled .plain type'.groupConn
  groupGlobal : type'.groupGlobal = type.groupGlobal
  originFile : type'.originFile = type.originFile

/-- Programs that differ in the letter case of references only. -/
structure Picture.Respelled (p p' : Picture) : Prop where
  header : p.header.Respelled p'.header
  types : List.Forall₂ TypeDef.Respelled p.types p'.types
  locals : p'.locals = p.locals
  submodules : Module.Respelled p.submodules p'.submodules
  definition : p.definition.Respelled .plain p'.definition
  code : p.code.Respelled .plain p'.code
  originFile : p'.originFile = p.originFile

namespace Value.Respelled

open Usage

variable {place : NamePlace} {v v' : Value}

theorem symm (h : v.Respelled place v') : v'.Respelled place v :=
  Eq.symm h

/-- The same is found in both, if what is found is told by the form in small letters. -/
theorem covered {find form : Value → List Finding} (h : v.Respelled place v')
    (hfind : ∀ w, SameUses (find w) (form (w.small place))) : Covered (find v) (find v') := by
  have hforms := hfind v'
  rw [h] at hforms
  exact ((hfind v).trans hforms.symm).covered

theorem code (h : v.Respelled .plain v') : Covered (Usage.code v) (Usage.code v') :=
  h.covered code_small

theorem definition (h : v.Respelled .plain v') :
    Covered (Usage.definition v) (Usage.definition v') :=
  h.covered definition_small

theorem group (h : v.Respelled .plain v') (isGlobal : Value) :
    Usage.group v' isGlobal = Usage.group v isGlobal := by
  rw [← group_small v', h, group_small]

theorem baseName (h : v.Respelled .name v') : Usage.baseName v' = Usage.baseName v := by
  have hname : NamePlace.name ≠ .shown := by decide
  rw [← baseName_small hname v', h, baseName_small hname]

theorem isReference (h : v.Respelled place v') : Usage.isReference v' = Usage.isReference v := by
  rw [← @isReference_small place v', h, isReference_small]

end Value.Respelled

namespace Header.Respelled

variable {h h' : Header}

theorem symm (hh : h.Respelled h') : h'.Respelled h :=
  ⟨hh.name.symm, hh.enableTail.symm, hh.groupConn.symm, hh.groupGlobal.symm⟩

theorem covered (hh : h.Respelled h') : h.Covered h' := by
  refine ⟨hh.name, ?_⟩
  have htail := hh.enableTail.covered (Usage.tail_small (.inr rfl))
  rw [Usage.header, Usage.header, hh.groupGlobal, hh.groupConn.group]
  exact htail.append (.refl _)

end Header.Respelled

namespace Mapping.Respelled

theorem symm {m m' : Mapping} (h : m.Respelled m') : m'.Respelled m :=
  ⟨h.target.symm, h.source.symm, h.isGlobal.symm⟩

theorem alike {m m' : Mapping} (h : m.Respelled m') : m.Alike m' :=
  ⟨by rw [h.isGlobal], h.source.baseName, h.source.isReference, h.target.baseName⟩

theorem forall₂_symm {cs cs' : List Mapping} (h : List.Forall₂ Mapping.Respelled cs cs') :
    List.Forall₂ Mapping.Respelled cs' cs :=
  h.flip.imp fun _ _ h => h.symm

theorem forall₂_alike {cs cs' : List Mapping} (h : List.Forall₂ Mapping.Respelled cs cs') :
    List.Forall₂ Mapping.Alike cs cs' :=
  h.imp fun _ _ h => h.alike

end Mapping.Respelled

namespace Module.Respelled

variable {modules modules' : List Module}

theorem symm (h : Module.Respelled modules modules') : Module.Respelled modules' modules := by
  induction h with
  | nil => exact .nil
  | single hinfo _ _ hinner hrest =>
    exact .single ⟨hinfo.header.symm, hinfo.definition.symm, hinfo.code.symm,
      hinfo.parameters.symm, hinfo.locals.symm, Mapping.Respelled.forall₂_symm hinfo.mappings⟩
      hinner hrest
  | frame hinfo _ _ hinner hrest =>
    exact .frame ⟨hinfo.header.symm, hinfo.definition.symm, hinfo.code.symm⟩ hinner hrest
  | typed hinfo _ hrest =>
    exact .typed ⟨hinfo.header.symm, hinfo.typeName.symm,
      Mapping.Respelled.forall₂_symm hinfo.mappings⟩ hrest
  | stray value _ hrest => exact .stray value hrest

theorem covered (h : Module.Respelled modules modules') : Module.Covered modules modules' := by
  induction h with
  | nil => exact .nil
  | single hinfo _ _ hinner hrest =>
    exact .single ⟨hinfo.header.covered, hinfo.definition.definition, hinfo.code.code,
      hinfo.parameters, hinfo.locals, Mapping.Respelled.forall₂_alike hinfo.mappings⟩ hinner hrest
  | frame hinfo _ _ hinner hrest =>
    exact .frame ⟨hinfo.header.covered, hinfo.definition.definition, hinfo.code.code⟩ hinner hrest
  | typed hinfo _ hrest =>
    exact .typed ⟨hinfo.header.covered, hinfo.typeName,
      Mapping.Respelled.forall₂_alike hinfo.mappings⟩ hrest
  | stray value _ hrest => exact .stray value hrest

end Module.Respelled

namespace TypeDef.Respelled

variable {type type' : TypeDef}

theorem symm (h : type.Respelled type') : type'.Respelled type where
  name := h.name.symm
  parameters := h.parameters.symm
  locals := h.locals.symm
  submodules := h.submodules.symm
  definition := h.definition.symm
  code := h.code.symm
  mappings := Mapping.Respelled.forall₂_symm h.mappings
  groupConn := h.groupConn.symm
  groupGlobal := h.groupGlobal.symm
  originFile := h.originFile.symm

theorem covered (h : type.Respelled type') : type.Covered type' where
  name := h.name
  parameters := h.parameters
  locals := h.locals
  submodules := h.submodules.covered
  definition := h.definition.definition
  code := h.code.code
  mappings := Mapping.Respelled.forall₂_alike h.mappings
  group := by
    rw [h.groupGlobal, h.groupConn.group]
    exact .refl _
  originFile := h.originFile

end TypeDef.Respelled

namespace Picture.Respelled

variable {p p' : Picture}

theorem symm (h : p.Respelled p') : p'.Respelled p where
  header := h.header.symm
  types := h.types.flip.imp fun _ _ h => h.symm
  locals := h.locals.symm
  submodules := h.submodules.symm
  definition := h.definition.symm
  code := h.code.symm
  originFile := h.originFile.symm

theorem covered (h : p.Respelled p') : p.Covered p' where
  header := h.header.covered
  types := h.types.imp fun _ _ h => h.covered
  locals := h.locals
  submodules := h.submodules.covered
  definition := h.definition.definition
  code := h.code.code
  originFile := h.originFile

end Picture.Respelled

namespace Usage

/-- In whatever letters references are written, the same variables are read and written, as long as
it does not change whether a name shown in a text object is in small letters. -/
theorem uses_ignore_letter_case {p p' : Picture} (h : p.Respelled p') {marks : Marks}
    {issues issues' : List Issue} (hrun : (analyze p marks).1 = .ok issues)
    (hrun' : (analyze p' marks).1 = .ok issues') (v : Variable) :
    ((analyze p' marks).2.get v).read = ((analyze p marks).2.get v).read ∧
      ((analyze p' marks).2.get v).written = ((analyze p marks).2.get v).written := by
  obtain ⟨hmarks, -⟩ := Covered.analyze h.covered hrun hrun'
  obtain ⟨hmarks', -⟩ := Covered.analyze h.symm.covered hrun' hrun
  refine ⟨Bool.eq_iff_iff.mpr ⟨?_, ?_⟩, Bool.eq_iff_iff.mpr ⟨?_, ?_⟩⟩
  · exact (hmarks'.get v).has .read
  · exact (hmarks.get v).has .read
  · exact (hmarks'.get v).has .write
  · exact (hmarks.get v).has .write

/-! A picture and a module in it both have a variable `Ab`. The module assigns to its own one what
comes through its parameter `In`, and shows `Ab` in a text object. -/

/-- The drawing of the module, with the name in the text object. -/
def labelDrawing (label : String) : Value :=
  .element .moduleDef [.null, .null, .null, .null, .null,
    .list [.element .graphObject [.text "TextObject",
      .dict [.text "text_vars"] [.list [.text label]]]],
    .list []]

/-- The code that assigns the parameter to the module's own variable. -/
def labelCode (assigned input : String) : Value :=
  .element .moduleCode [.list [], .list [.element .equation [.text "Fill", .null, .null,
    .list [.tuple [.text "assign", reference assigned, reference input]]]]]

def labelUnit (label assigned input source : String) : SingleInfo :=
  ⟨plainHeader "Unit", labelDrawing label, .null, [integerVariable 2 "In"],
    [integerVariable 3 "Ab"], labelCode assigned input, [plainMapping input source], []⟩

def labelPicture (label assigned input source : String) : Picture :=
  ⟨plainHeader "Plant", .text "BasePicture", .null, [], [],
    [integerVariable 0 "Ab", integerVariable 1 "Tank"],
    [.single (labelUnit label assigned input source) []], .null, .null, .null, .null, []⟩

theorem reference_respelled {place : NamePlace} {name name' : String}
    (h : Text.smallName name' = Text.smallName name) :
    (reference name).Respelled place (reference name') := by
  simp [Value.Respelled, reference, Value.small, Value.smallEntries, Value.text?, NamePlace.spell, h]

theorem plainMapping_respelled {target target' source source' : String}
    (htarget : Text.smallName target' = Text.smallName target)
    (hsource : Text.smallName source' = Text.smallName source) :
    (plainMapping target source).Respelled (plainMapping target' source') :=
  ⟨reference_respelled htarget, reference_respelled hsource, rfl⟩

theorem labelCode_respelled {assigned assigned' input input' : String}
    (hassigned : Text.smallName assigned' = Text.smallName assigned)
    (hinput : Text.smallName input' = Text.smallName input) :
    (labelCode assigned input).Respelled .plain (labelCode assigned' input') := by
  have hleft := @reference_respelled .plain _ _ hassigned
  have hright := @reference_respelled .plain _ _ hinput
  simp only [Value.Respelled] at hleft hright
  simp [Value.Respelled, labelCode, Value.small, Value.smallAll, NamePlace.inner, hleft, hright]

theorem labelDrawing_respelled {label label' : String}
    (hlabel : Value.Respelled .shown (.text label) (.text label')) :
    (labelDrawing label).Respelled .plain (labelDrawing label') := by
  simp only [Value.Respelled, Value.small] at hlabel
  simp [Value.Respelled, labelDrawing, Value.small, Value.smallAll, Value.smallEntries,
    Value.text?, NamePlace.inner, hlabel]

theorem labelPicture_respelled {label label' assigned assigned' input input' source source' : String}
    (hlabel : Value.Respelled .shown (.text label) (.text label'))
    (hassigned : Text.smallName assigned' = Text.smallName assigned)
    (hinput : Text.smallName input' = Text.smallName input)
    (hsource : Text.smallName source' = Text.smallName source) :
    (labelPicture label assigned input source).Respelled
      (labelPicture label' assigned' input' source') := by
  have hheader (name : String) : (plainHeader name).Respelled (plainHeader name) :=
    ⟨rfl, .refl _ _, .refl _ _, rfl⟩
  have hunit : (labelUnit label assigned input source).Respelled
      (labelUnit label' assigned' input' source') :=
    ⟨hheader _, labelDrawing_respelled hlabel, labelCode_respelled hassigned hinput, rfl, rfl,
      .cons (plainMapping_respelled hinput hsource) .nil⟩
  exact ⟨hheader _, .nil, rfl, .single hunit .nil .nil, .refl _ _, .refl _ _, rfl⟩

theorem label_returns : ∃ issues,
    (analyze (labelPicture "Ab" "Ab" "In" "Tank") chainedMarks).1 = .ok issues ∧
      issues.map (fun issue => (issue.kind, issue.subject.id)) =
        [(.readOnly, 0), (.readOnly, 1)] :=
  analyze_returns (by decide)

theorem label_respelled_returns : ∃ issues,
    (analyze (labelPicture "AB" "ab" "IN" "tank") chainedMarks).1 = .ok issues ∧
      issues.map (fun issue => (issue.kind, issue.subject.id)) =
        [(.readOnly, 0), (.readOnly, 1)] :=
  analyze_returns (by decide)

theorem label_small_returns : ∃ issues,
    (analyze (labelPicture "ab" "Ab" "In" "Tank") chainedMarks).1 = .ok issues ∧
      issues.map (fun issue => (issue.kind, issue.subject.id)) =
        [(.unused, 0), (.readOnly, 1)] :=
  analyze_returns (by decide)

theorem label_uses_ignore_case :
    (labelPicture "Ab" "Ab" "In" "Tank").Respelled (labelPicture "AB" "ab" "IN" "tank") ∧
    ∃ issues issues',
      (analyze (labelPicture "Ab" "Ab" "In" "Tank") chainedMarks).1 = .ok issues ∧
      (analyze (labelPicture "AB" "ab" "IN" "tank") chainedMarks).1 = .ok issues' ∧
      ∀ v, ((analyze (labelPicture "AB" "ab" "IN" "tank") chainedMarks).2.get v).read =
          ((analyze (labelPicture "Ab" "Ab" "In" "Tank") chainedMarks).2.get v).read ∧
        ((analyze (labelPicture "AB" "ab" "IN" "tank") chainedMarks).2.get v).written =
          ((analyze (labelPicture "Ab" "Ab" "In" "Tank") chainedMarks).2.get v).written := by
  have hshown : Text.smallName "AB" = Text.smallName "Ab" := by decide
  have hsmall : Text.hasSmallBase "AB" = Text.hasSmallBase "Ab" := by decide
  have hrespelled : (labelPicture "Ab" "Ab" "In" "Tank").Respelled
      (labelPicture "AB" "ab" "IN" "tank") := by
    refine labelPicture_respelled ?_ (by decide) (by decide) (by decide)
    rw [Value.Respelled, Value.small, Value.small, NamePlace.spell, NamePlace.spell, hshown, hsmall]
  obtain ⟨issues, hrun, -⟩ := label_returns
  obtain ⟨issues', hrun', -⟩ := label_respelled_returns
  exact ⟨hrespelled, issues, issues', hrun, hrun', uses_ignore_letter_case hrespelled hrun hrun'⟩

/-- Shown in small letters, the module's own variable is read, and with a capital the one of the
picture around it. -/
theorem label_read_by_case :
    (∃ issues, (analyze (labelPicture "ab" "Ab" "In" "Tank") chainedMarks).1 = .ok issues) ∧
    (∃ issues, (analyze (labelPicture "Ab" "Ab" "In" "Tank") chainedMarks).1 = .ok issues) ∧
    ((analyze (labelPicture "ab" "Ab" "In" "Tank") chainedMarks).2.get
      (integerVariable 3 "Ab")).read = true ∧
    ((analyze (labelPicture "ab" "Ab" "In" "Tank") chainedMarks).2.get
      (integerVariable 0 "Ab")).read = false ∧
    ((analyze (labelPicture "Ab" "Ab" "In" "Tank") chainedMarks).2.get
      (integerVariable 3 "Ab")).read = false ∧
    ((analyze (labelPicture "Ab" "Ab" "In" "Tank") chainedMarks).2.get
      (integerVariable 0 "Ab")).read = true := by
  obtain ⟨issues, hrun, -⟩ := label_returns
  obtain ⟨issues', hrun', -⟩ := label_small_returns
  exact ⟨⟨issues', hrun'⟩, ⟨issues, hrun⟩, by decide, by decide, by decide, by decide⟩

end Usage

end SattLine
