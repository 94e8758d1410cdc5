import SattLine.Proofs.Usage.Drawn

/-!
Parameters and the variables that they are connected to. The walk over a picture links every
parameter of a module to its source, and when it is over each parameter is given the uses of its
source, link after link. Main statement: a parameter then has every use of its source that the walk
found, and also those that the source was given from other links, unless one of those links comes
later. As the links of inner modules come first, a use is not passed on from a module to those
inside it a second time.
-/

namespace SattLine

open List

namespace Usage

/-- A variable is accessed exactly as its places say. -/
def Coherent (usage : Usage) : Prop :=
  ∀ access, usage.Has access ↔ ∃ path, (path, access) ∈ usage.places

/-- A use of this kind is kept with its place. -/
def Noted (usage : Usage) (access : Access) : Prop :=
  ∃ path, (path, access) ∈ usage.places

theorem noted_note_iff {usage : Usage} {access other : Access} {path : Path} :
    (usage.note other path).Noted access ↔ usage.Noted access ∨ access = other := by
  constructor
  · rintro ⟨place, hplace⟩
    rcases mem_append.mp hplace with hold | hnew
    · exact .inl ⟨place, hold⟩
    · cases mem_singleton.mp hnew
      exact .inr rfl
  · rintro (⟨place, hplace⟩ | rfl)
    · exact ⟨place, mem_append_left _ hplace⟩
    · exact ⟨path, mem_append_right _ (mem_singleton_self _)⟩

theorem has_note_iff {usage : Usage} {access other : Access} {path : Path} :
    (usage.note other path).Has access ↔ usage.Has access ∨ access = other := by
  cases access <;> cases other <;> simp [Has, note]

theorem Coherent.note {usage : Usage} (h : usage.Coherent) (other : Access) (path : Path) :
    (usage.note other path).Coherent := by
  intro access
  rw [has_note_iff, h access]
  exact noted_note_iff.symm

end Usage

namespace Marks

/-- All variables are accessed exactly as their places say, as in a program not yet analysed. -/
def Coherent (marks : Marks) : Prop :=
  ∀ v, (marks.get v).Coherent

theorem Coherent.note {marks : Marks} (h : marks.Coherent) (v : Variable) (access : Access)
    (path : Path) : (marks.note v access path).Coherent := by
  intro w
  rw [get_note]
  split
  · exact (h w).note access path
  · exact h w

theorem coherent_fresh (n : Nat) : (⟨Array.replicate n {}⟩ : Marks).Coherent := by
  intro v
  have hnone : (⟨Array.replicate n {}⟩ : Marks).get v = {} := by
    rw [get, Array.getD_eq_getD_getElem?, Array.getElem?_replicate]
    split <;> rfl
  rw [hnone]
  intro access
  cases access <;> simp [Usage.Has]

variable {marks : Marks} {v w : Variable} {access : Access} {places : List (Path × Access)}

theorem grows_noteAll (marks : Marks) (v : Variable) (places : List (Path × Access)) :
    marks.Grows (marks.noteAll v places) :=
  (Usage.State.grows_closed.of_noteAll v places (.start marks)).marks

theorem has_noteAll {path : Path} (hv : v.id < marks.entries.size) (h : (path, access) ∈ places) :
    (marks.noteAll v places).Has v access := by
  induction places generalizing marks with
  | nil => simp at h
  | cons place rest ih =>
    have hgrows := grows_note marks v place.2 place.1
    rcases mem_cons.mp h with rfl | hrest
    · exact (grows_noteAll _ v rest).keeps v access (has_note marks v access path hv)
    · exact ih (hgrows.size_eq ▸ hv) hrest

/-- A variable that has more uses now had them before or was given them. -/
theorem has_of_has_noteAll (h : (marks.noteAll v places).Has w access) :
    marks.Has w access ∨ v.id = w.id ∧ ∃ path, (path, access) ∈ places := by
  induction places generalizing marks with
  | nil => exact .inl h
  | cons place rest ih =>
    rcases ih h with hnoted | ⟨hid, path, hpath⟩
    · rw [Has, get_note] at hnoted
      split at hnoted
      · rename_i hsame
        rcases Usage.has_note_iff.mp hnoted with hold | rfl
        · exact .inl hold
        · exact .inr ⟨hsame.1, place.1, mem_cons_self⟩
      · exact .inl hnoted
    · exact .inr ⟨hid, path, mem_cons_of_mem _ hpath⟩

theorem has_congr (hid : v.id = w.id) : marks.Has v access ↔ marks.Has w access := by
  rw [Has, Has, get, get, hid]

end Marks

namespace Usage

open Walk

section Replay

variable {marks : Marks} {source target : Variable} {access : Access}

theorem replay_cons (source target : Variable) (rest : List (Variable × Variable)) (marks : Marks) :
    replay ((source, target) :: rest) marks =
      replay rest (marks.noteAll target (marks.get source).places) := rfl

theorem replay_append (first rest : List (Variable × Variable)) (marks : Marks) :
    replay (first ++ rest) marks = replay rest (replay first marks) := by
  induction first generalizing marks with
  | nil => rfl
  | cons link first ih => exact ih _

theorem coherent_closed :
    Closed (fun _ => True) fun s s' => s.marks.Coherent → s'.marks.Coherent where
  refl := fun _ h => h
  trans := fun hab hbc h => hbc (hab h)
  note _ v access path h := h.note v access path
  report _ _ _ _ h := h
  link _ _ _ _ h := h

theorem coherent_noteAll (h : marks.Coherent) (v : Variable) (places : List (Path × Access)) :
    (marks.noteAll v places).Coherent :=
  coherent_closed.of_noteAll v places (.start marks) h

theorem replay_coherent (h : marks.Coherent) (links : List (Variable × Variable)) :
    (replay links marks).Coherent :=
  coherent_closed.of_replay links (.start marks) h

/-- What a source has at its turn the target has from then on. -/
theorem replay_has_target (h : marks.Coherent) (htarget : target.id < marks.entries.size)
    (before after : List (Variable × Variable)) (hsource : (replay before marks).Has source access) :
    (replay (before ++ (source, target) :: after) marks).Has target access := by
  obtain ⟨path, hpath⟩ := (replay_coherent h before source access).mp hsource
  have hsize := (replay_grows before marks).size_eq
  rw [replay_append, replay_cons]
  exact (replay_grows after _).keeps target access (Marks.has_noteAll (hsize ▸ htarget) hpath)

/-- What a variable has in the end it had before, or a link to it has brought it. -/
theorem has_of_has_replay (h : marks.Coherent) {links : List (Variable × Variable)}
    (hv : (replay links marks).Has source access) :
    marks.Has source access ∨ ∃ link ∈ links, link.2.id = source.id := by
  induction links generalizing marks with
  | nil => exact .inl hv
  | cons link rest ih =>
    rcases ih (coherent_noteAll h _ _) hv with hnoted | ⟨later, hlater, hid⟩
    · rcases Marks.has_of_has_noteAll hnoted with hold | ⟨hid, -⟩
      · exact .inl hold
      · exact .inr ⟨link, mem_cons_self, hid⟩
    · exact .inr ⟨later, mem_cons_of_mem _ hlater, hid⟩

/-- Where no later link leads to a source, its target has all that the source has in the end. -/
theorem replay_follows (h : marks.Coherent) (htarget : target.id < marks.entries.size)
    {before after : List (Variable × Variable)} (hlast : ∀ link ∈ after, link.2.id ≠ source.id)
    (hsource : (replay (before ++ (source, target) :: after) marks).Has source access) :
    (replay (before ++ (source, target) :: after) marks).Has target access := by
  by_cases hsame : target.id = source.id
  · exact (Marks.has_congr hsame).mpr hsource
  · apply replay_has_target h htarget
    rw [replay_append] at hsource
    have hcoherent := replay_coherent h before
    rcases has_of_has_replay hcoherent hsource with hbefore | ⟨link, hlink, hid⟩
    · exact hbefore
    · rcases mem_cons.mp hlink with rfl | hlink
      · exact absurd hid hsame
      · exact absurd hid (hlast link hlink)

end Replay

/-- `Stands scope modules outer info`: the module with that data stands among the modules, whose
scope is `scope`, or at any depth inside them, and the scope around it is `outer`. -/
inductive Stands : List Variable → List Module → List Variable → SingleInfo → Prop
  | here {scope modules info inner} (h : .single info inner ∈ modules) :
      Stands scope modules scope info
  | framed {scope modules frame inner outer info} (hf : .frame frame inner ∈ modules)
      (h : Stands scope inner outer info) : Stands scope modules outer info
  | nested {scope modules single inner outer info} (hs : .single single inner ∈ modules)
      (h : Stands single.scope inner outer info) : Stands scope modules outer info

section Links

variable {p : Picture} {onType : TypeDef → Path → Walk Unit} {s s' : State} {u : Unit}
  {source target : Variable}

theorem linked_closed (link : Variable × Variable) :
    Closed (fun _ => True) fun s s' => link ∈ s.aliases → link ∈ s'.aliases where
  refl := fun _ h => h
  trans := fun hab hbc h => hbc (hab h)
  note _ _ _ _ h := h
  report _ _ _ _ h := h
  link _ _ _ _ h := mem_append_left _ h

/-- Links lead to variables of the program. -/
theorem targets_closed (targets : Variable → Prop) :
    Closed targets fun s s' => (∀ link ∈ s.aliases, targets link.2) →
      ∀ link ∈ s'.aliases, targets link.2 where
  refl := fun _ h => h
  trans := fun hab hbc h => hbc (hab h)
  note _ _ _ _ h := h
  report _ _ _ _ h := h
  link s source target htarget hlinks link hlink := by
    rcases mem_append.mp hlink with hold | hnew
    · exact hlinks link hold
    · cases mem_singleton.mp hnew
      exact htarget

variable {outer scope : List Variable} {m : Mapping} {depth : Nat} {modules : List Module}
  {path : Path} {info : SingleInfo}

theorem link_links {inner : List Variable} {mappings : List Mapping} (hm : m ∈ mappings)
    (hsource : sourceOf p outer m = .ok (some source))
    (htarget : scopeTarget inner m = .ok (some target))
    (h : (link p inner outer mappings).Ends s u s') : (source, target) ∈ s'.aliases := by
  induction mappings generalizing s with
  | nil => simp at hm
  | cons first rest ih =>
    rcases mem_cons.mp hm with rfl | hm
    · simp only [link, hsource, htarget, ends_bind, ends_ofFault] at h
      obtain ⟨_, _, ⟨heq, rfl⟩, _, _, ⟨heq', rfl⟩, h⟩ := h
      cases heq
      cases heq'
      simp only [ends_bind, ends_modify] at h
      obtain ⟨_, _, rfl, hrest⟩ := h
      refine (linked_closed _).of_link (fun _ _ => trivial) hrest ?_
      exact mem_append_right _ (mem_singleton_self _)
    · simp only [link, ends_bind, ends_ofFault] at h
      obtain ⟨_, _, ⟨-, rfl⟩, _, _, ⟨-, rfl⟩, h⟩ := h
      split at h
      · simp only [ends_bind] at h
        obtain ⟨_, _, -, hrest⟩ := h
        exact ih hm hrest
      · exact ih hm h

/-- Every parameter of a module is linked to its source, however deep the module stands. -/
theorem walkModules_links (hstands : Stands scope modules outer info) (hm : m ∈ info.mappings)
    (hsource : sourceOf p outer m = .ok (some source))
    (htarget : scopeTarget info.scope m = .ok (some target))
    (h : (walkModules p (walkType p depth) scope path modules).Ends s u s') :
    (source, target) ∈ s'.aliases := by
  have hlinked := linked_closed (source, target)
  have hon : ∀ ⦃name type path⦄, p.type? name = some type →
      (walkType p depth type path).Keeps _ := fun _ _ _ _ =>
    hlinked.of_walkType (fun _ _ h => h) (fun _ _ _ _ => trivial) depth fun _ _ => trivial
  induction hstands generalizing path s s' u with
  | here hmem =>
    obtain ⟨t, _, t', -, hwalk, hkept⟩ := hlinked.of_mem hon hmem h
    simp only [walkModule, ends_bind, ends_get] at hwalk
    obtain ⟨_, _, -, _, _, -, _, _, -, _, _, -, _, _, -, _, _, hlink, _, _, hpass, hcheck⟩ := hwalk
    apply hkept
    exact hlinked.of_checkMappings hcheck (hlinked.of_passOnAll hpass
      (link_links hm hsource htarget hlink))
  | framed hmem _ ih =>
    obtain ⟨t, _, t', -, hwalk, hkept⟩ := hlinked.of_mem hon hmem h
    simp only [walkModule, ends_bind] at hwalk
    obtain ⟨_, _, -, _, _, -, _, _, -, hinner⟩ := hwalk
    exact hkept (ih hm hsource htarget hinner)
  | nested hmem _ ih =>
    obtain ⟨t, _, t', -, hwalk, hkept⟩ := hlinked.of_mem hon hmem h
    simp only [walkModule, ends_bind, ends_get] at hwalk
    obtain ⟨_, _, -, _, _, -, _, _, -, _, _, hinner, _, _, ⟨-, rfl⟩, _, _, hlink, _, _, hpass,
      hcheck⟩ := hwalk
    apply hkept
    exact hlinked.of_checkMappings hcheck (hlinked.of_passOnAll hpass
      (hlinked.of_link (fun _ _ => trivial) hlink (ih hm hsource htarget hinner)))

theorem walkPicture_links (hstands : Stands p.locals p.submodules outer info)
    (hm : m ∈ info.mappings) (hsource : sourceOf p outer m = .ok (some source))
    (htarget : scopeTarget info.scope m = .ok (some target)) (h : (walkPicture p).Ends s u s') :
    (source, target) ∈ s'.aliases := by
  obtain ⟨_, _, _, -, -, -, hmodules⟩ := walkPicture_ends h
  exact walkModules_links hstands hm hsource htarget hmodules

end Links

section Analysis

variable {p : Picture} {marks : Marks} {s s' : State} {u : Unit} {v : Variable} {access : Access}

/-- The module types are reported without a word on a variable that is marked. -/
theorem reportTypes_clear {types : List TypeDef} (h : (reportTypes p types).Ends s u s')
    (hv : s.marks.Has v access) (hclear : Clear v s) : Clear v s' := by
  induction types generalizing s with
  | nil =>
    obtain ⟨-, rfl⟩ := ends_pure.mp h
    exact hclear
  | cons type rest ih =>
    rcases reportTypes_cons.mp h with ⟨-, h⟩ | ⟨-, t, t', hwalk, hreport, hrest⟩
    · exact ih h hv hclear
    · have hgrows := walkType_grows _ hwalk
      have hmarked := hgrows.marks.keeps v access hv
      refine ih hrest ?_ (reportDeclarations_clear hreport (hclear.grows hgrows) (.inl hmarked))
      rw [(reportDeclarations_keeps hreport).1]
      exact hmarked

/-- The state in which the walk over a picture leaves the analysis. -/
def walked (p : Picture) (marks : Marks) : State :=
  ((walkPicture p).run.run (State.start marks)).2

/-- The marks when the uses of the sources have been passed on to the parameters. -/
def linked (p : Picture) (marks : Marks) : Marks :=
  replay (walked p marks).aliases (walked p marks).marks

/-- The analysis that returns has walked the picture and passed the uses on; what is marked then
stays marked and is not called unused. -/
theorem analyze_linked {issues : List Issue} (h : (analyze p marks).1 = .ok issues) :
    (walkPicture p).Ends (State.start marks) () (walked p marks) ∧
      ∀ v access, (linked p marks).Has v access → (analyze p marks).2.Has v access ∧
        ∀ issue ∈ issues, issue.kind = .unused → issue.subject.id ≠ v.id := by
  obtain ⟨s', hends, hmarks⟩ := analyze_ends h
  simp only [analysis, ends_bind, ends_modify, ends_get, ends_pure] at hends
  obtain ⟨_, _, rfl, _, s₁, hwalk, _, s₂, hreplay, _, s₃, hrepeated, _, s₄, hlocals, _, s₅,
    hmodules, _, s₆, htypes, _, _, ⟨rfl, rfl⟩, rfl, rfl⟩ := hends
  have hwalked : walked p marks = s₁ := congrArg Prod.snd hwalk
  refine ⟨hwalked ▸ hwalk, fun v access hv => ?_⟩
  have hreplayed : s₂.marks.Has v access := by
    rw [replayAliases, ends_modify] at hreplay
    rw [linked, hwalked] at hv
    rw [hreplay]
    exact hv
  have hclear : Clear v s₂ := by
    have hgrows := State.grows_closed.of_walkPicture (fun _ _ => ⟨.refl _, fun _ hi _ => hi⟩)
      (fun _ _ => trivial) hwalk
    refine Clear.grows (fun issue hi => ?_) (hgrows.trans (replayAliases_grows hreplay).toGrows)
    simp at hi
  have hrepeats := reportRepeatedTypes_grows hrepeated
  have h₃ := hrepeats.marks.keeps v access hreplayed
  have h₄ : s₄.marks.Has v access := (reportDeclarations_keeps hlocals).1 ▸ h₃
  have h₅ : s₅.marks.Has v access := (reportDeclarations_keeps hmodules).1 ▸ h₄
  have hclear₄ := reportDeclarations_clear hlocals (hclear.grows hrepeats.toGrows) (.inl h₃)
  have hclear₅ := reportDeclarations_clear hmodules hclear₄ (.inl h₄)
  exact ⟨hmarks ▸ (reportTypes_keeps htypes).keeps v access h₅, reportTypes_clear htypes h₅ hclear₅⟩

/-- Every parameter of a module is linked to its source. A parameter has each use of its source
that the walk found, and is then not called unused; the same holds of the uses that the source was
given by other links, if none of these comes later. -/
theorem uses_follow_links {value : Value} {start : Marks}
    (hread : value.toPicture.run start = .ok (p, marks)) (hmarks : marks.Coherent)
    {issues : List Issue} (hrun : (analyze p marks).1 = .ok issues) :
    (∀ outer info, Stands p.locals p.submodules outer info → ∀ m ∈ info.mappings,
      ∀ source target, sourceOf p outer m = .ok (some source) →
        scopeTarget info.scope m = .ok (some target) →
          (source, target) ∈ (walked p marks).aliases) ∧
    (∀ link ∈ (walked p marks).aliases, ∀ access, (walked p marks).marks.Has link.1 access →
      (analyze p marks).2.Has link.2 access ∧
        ∀ issue ∈ issues, issue.kind = .unused → issue.subject.id ≠ link.2.id) ∧
    ∀ before link after, (walked p marks).aliases = before ++ link :: after →
      (∀ later ∈ after, later.2.id ≠ link.1.id) → ∀ access, (linked p marks).Has link.1 access →
        (analyze p marks).2.Has link.2 access ∧
          ∀ issue ∈ issues, issue.kind = .unused → issue.subject.id ≠ link.2.id := by
  obtain ⟨hwalk, hfinal⟩ := analyze_linked hrun
  have hremember : ∀ (s : State) (entries : List (String × ParameterUse)),
      s.marks.Coherent → ({ s with typeUse := entries } : State).marks.Coherent := fun _ _ h => h
  have hcoherent : (walked p marks).marks.Coherent :=
    coherent_closed.of_walkPicture hremember (fun _ _ => trivial) hwalk hmarks
  have hgrows := State.grows_closed.of_walkPicture (fun _ _ => ⟨.refl _, fun _ hi _ => hi⟩)
    (fun _ _ => trivial) hwalk
  have hnumbers := Value.toPicture_declares value hread
  have htargets : ∀ link ∈ (walked p marks).aliases,
      link.2.id < (walked p marks).marks.entries.size := by
    rw [hgrows.marks.size_eq]
    refine (targets_closed fun v => v.id < marks.next).of_walkPicture (fun _ _ h => h)
      (fun v hv => hnumbers.id_lt hv) hwalk ?_
    simp [State.start]
  refine ⟨fun outer info hstands m hm source target hsource htarget =>
    walkPicture_links hstands hm hsource htarget hwalk, ?_, ?_⟩
  · intro link hlink access haccess
    obtain ⟨before, after, hsplit⟩ := append_of_mem hlink
    apply hfinal
    rw [linked, hsplit]
    exact replay_has_target hcoherent (htargets link hlink) before after
      ((replay_grows before _).keeps _ _ haccess)
  · intro before link after hsplit hlast access haccess
    have hlink : link ∈ (walked p marks).aliases := by simp [hsplit]
    apply hfinal
    rw [linked, hsplit] at haccess ⊢
    exact replay_follows hcoherent (htargets link hlink) hlast haccess

/-- An analysis that can be carried out returns the issues that it is seen to return. -/
theorem analyze_returns {found : List (IssueKind × Nat)}
    (h : (analyze p marks).1.toOption.map (List.map fun issue => (issue.kind, issue.subject.id)) =
      some found) :
    ∃ issues, (analyze p marks).1 = .ok issues ∧
      issues.map (fun issue => (issue.kind, issue.subject.id)) = found := by
  cases hrun : (analyze p marks).1 with
  | error problem =>
    rw [hrun] at h
    cases h
  | ok issues =>
    rw [hrun] at h
    exact ⟨issues, rfl, Option.some.inj h⟩

end Analysis

/-! A picture that uses its variable `Tank`. The parameter `Amount` of a module is connected to it,
and the parameter `Level` of a module inside that one to `Amount`. -/

/-- The code `Tank = Tank`. -/
def keepTank : Value :=
  .element .moduleCode [.list [], .list [.element .equation [.text "Keep", .null, .null,
    .list [.tuple [.text "assign", reference "Tank", reference "Tank"]]]]]

def gaugeModule : SingleInfo :=
  ⟨plainHeader "Gauge", .null, .null, [integerVariable 2 "Level"], [], .null,
    [plainMapping "Level" "Amount"], []⟩

def nestedValue : Value :=
  .element .basePicture [headerNamed "Plant", .text "BasePicture", .null, .list [], .list [],
    .list [integerNamed "Tank"],
    .list [.element .singleModule [headerNamed "Unit", .null, .null,
      .list [integerNamed "Amount"], .list [],
      .list [.element .singleModule [headerNamed "Gauge", .null, .null,
        .list [integerNamed "Level"], .list [], .list [], .null,
        .list [connection "Level" "Amount"]]],
      .null, .list [connection "Amount" "Tank"]]],
    .null, keepTank, .null, .null, .null]

def nestedUnit : SingleInfo :=
  ⟨plainHeader "Unit", .null, .null, [integerVariable 1 "Amount"], [], .null,
    [plainMapping "Amount" "Tank"], []⟩

def nestedPicture : Picture :=
  ⟨plainHeader "Plant", .text "BasePicture", .null, [], [], [integerVariable 0 "Tank"],
    [.single nestedUnit [.single gaugeModule []]], .null, keepTank, .null, .null, []⟩

def nestedMarks : Marks :=
  ⟨#[{}, {}, {}]⟩

theorem nested_read : nestedValue.toPicture.run {} = .ok (nestedPicture, nestedMarks) := by
  rfl

theorem nested_coherent : nestedMarks.Coherent :=
  Marks.coherent_fresh 3

theorem nested_returns : ∃ issues, (analyze nestedPicture nestedMarks).1 = .ok issues ∧
    issues.map (fun issue => (issue.kind, issue.subject.id)) = [(.unused, 2)] :=
  analyze_returns (by decide)

theorem nested_amount_used : ∃ issues, (analyze nestedPicture nestedMarks).1 = .ok issues ∧
    (analyze nestedPicture nestedMarks).2.Has (integerVariable 1 "Amount") .read ∧
      ∀ issue ∈ issues, issue.kind = .unused → issue.subject.id ≠ 1 := by
  obtain ⟨issues, hrun, -⟩ := nested_returns
  obtain ⟨hlinks, huses, -⟩ := uses_follow_links nested_read nested_coherent hrun
  have hread : (walked nestedPicture nestedMarks).marks.Has (integerVariable 0 "Tank") .read := by
    change ((walked nestedPicture nestedMarks).marks.get (integerVariable 0 "Tank")).read = true
    decide
  have hlink := hlinks _ nestedUnit (.here (mem_singleton_self _)) _
    (mem_singleton_self _) (integerVariable 0 "Tank") (integerVariable 1 "Amount")
    rfl rfl
  exact ⟨issues, hrun, huses _ hlink .read hread⟩

/-- `Level` is linked to `Amount`, which is used in the end, and yet `Level` is called unused. -/
theorem nested_level_not_used :
    ((walked nestedPicture nestedMarks).aliases.map fun link => (link.1.id, link.2.id)) =
        [(1, 2), (0, 1)] ∧
      (analyze nestedPicture nestedMarks).2.Has (integerVariable 1 "Amount") .read ∧
      ¬ (analyze nestedPicture nestedMarks).2.Has (integerVariable 2 "Level") .read ∧
      ∃ issues, (analyze nestedPicture nestedMarks).1 = .ok issues ∧
        issues.map (fun issue => (issue.kind, issue.subject.id)) = [(.unused, 2)] := by
  refine ⟨by decide, ?_, ?_, nested_returns⟩
  · change ((analyze nestedPicture nestedMarks).2.get (integerVariable 1 "Amount")).read = true
    decide
  · change ¬ ((analyze nestedPicture nestedMarks).2.get (integerVariable 2 "Level")).read = true
    decide

end Usage

end SattLine
