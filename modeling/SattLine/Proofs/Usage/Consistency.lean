import SattLine.Proofs.Program.Renewal
import SattLine.Proofs.Usage.Covering
import SattLine.Proofs.Usage.Late

/-!
Programs that are analysed again and again. Main statement: however often a program that was just
read is analysed or an account of its variables is given, nothing of it changes but the uses of its
variables; flags are only set, places are only added at the end, and each flag says what the places
say.
-/

namespace SattLine

namespace Usage

open Walk

/-- Flags stay set, and places are only added at the end. -/
structure Precedes (usage later : Usage) : Prop where
  has : ∀ access, usage.Has access → later.Has access
  places : usage.places <+: later.places

variable {usage later : Usage}

theorem Has.noteAll {access : Access} (h : usage.Has access) (places : List (Path × Access)) :
    (usage.noteAll places).Has access := by
  induction places generalizing usage with
  | nil => exact h
  | cons place rest ih => exact ih (h.note place.2 place.1)

theorem Continues.precedes (h : usage.Continues later) : usage.Precedes later := by
  obtain ⟨more, rfl⟩ := h
  refine ⟨fun access h => h.noteAll more, ?_⟩
  rw [places_noteAll]
  exact List.prefix_append _ _

theorem Coherent.noteAll (h : usage.Coherent) (places : List (Path × Access)) :
    (usage.noteAll places).Coherent := by
  induction places generalizing usage with
  | nil => exact h
  | cons place rest ih => exact ih (h.note place.2 place.1)

theorem Coherent.continues (h : usage.Coherent) (hlater : usage.Continues later) :
    later.Coherent := by
  obtain ⟨more, rfl⟩ := hlater
  exact h.noteAll more

theorem coherent_unused : Coherent {} := by
  intro access
  cases access <;> simp [Has]

section Continuing

variable {p : Picture} {s s' : State} {u : Unit}

theorem continues_closed :
    Closed (fun _ => True) fun s s' => s.marks.Continues s'.marks where
  refl := fun s => .refl s.marks
  trans := .trans
  note s v access path := s.marks.continues_note v access path
  report _ _ _ _ := .refl _
  link _ _ _ _ := .refl _

theorem walkType_continues {depth : Nat} {type : TypeDef} {path : Path}
    (h : (walkType p depth type path).Ends s u s') : s.marks.Continues s'.marks :=
  continues_closed.of_walkType (fun _ _ => .refl _) (fun _ _ _ _ => trivial) depth
    (fun _ _ => trivial) h

theorem walkPicture_continues (h : (walkPicture p).Ends s u s') : s.marks.Continues s'.marks :=
  continues_closed.of_walkPicture (fun _ _ => .refl _) (fun _ _ => trivial) h

theorem reportTypes_continues {types : List TypeDef} (h : (reportTypes p types).Ends s u s') :
    s.marks.Continues s'.marks := by
  induction types generalizing s with
  | nil =>
    obtain ⟨-, rfl⟩ := ends_pure.mp h
    exact .refl _
  | cons type rest ih =>
    rcases reportTypes_cons.mp h with ⟨-, hrest⟩ | ⟨-, t, t', hwalk, hreport, hrest⟩
    · exact ih hrest
    · have hkept : t'.marks = t.marks := (reportDeclarations_keeps hreport).1
      exact (walkType_continues hwalk).trans (hkept ▸ ih hrest)

theorem reportModules_continues (h : (reportModules p).Ends s u s') :
    s.marks.Continues s'.marks := by
  simp only [reportModules, ends_bind, ends_modify] at h
  obtain ⟨_, _, rfl, _, s₁, hwalk, _, s₂, hreplay, _, s₃, hrepeated, _, s₄, hlocals, hmodules⟩ := h
  rw [replayAliases, ends_modify] at hreplay
  obtain ⟨ds, rfl⟩ := reportRepeatedTypes_ends hrepeated
  subst hreplay
  rw [(reportDeclarations_keeps hmodules).1, (reportDeclarations_keeps hlocals).1]
  exact (walkPicture_continues hwalk).trans (continues_closed.of_replay s₁.aliases s₁)

theorem analyze_continues {marks : Marks} {issues : List Issue}
    (h : (analyze p marks).1 = .ok issues) : marks.Continues (analyze p marks).2 := by
  obtain ⟨s, s', hmodules, htypes, -, hmarks⟩ := analyze_stages h
  rw [hmarks]
  exact (reportModules_continues hmodules).trans (reportTypes_continues htypes)

end Continuing

/-- What can be asked of a program: its issues, or an account of the variables of a name. -/
inductive Call where
  | issues
  | account (name : Value)

/-- The call returns when the marks are `marks`, and leaves those of `now`. -/
def Call.Returns (p : Picture) (marks now : Marks) : Call → Prop
  | .issues => ∃ issues, analyze p marks = (.ok issues, now)
  | .account name => (∃ issues, analyze p marks = (.ok issues, now)) ∧
      ∃ text, accountFor p now name = .ok text

/-- Calls that all return, one after the other. -/
inductive Calls (p : Picture) : List Call → Marks → Marks → Prop
  | nil (marks : Marks) : Calls p [] marks marks
  | cons {call : Call} {rest : List Call} {marks between now : Marks}
      (h : call.Returns p marks between) (hrest : Calls p rest between now) :
      Calls p (call :: rest) marks now

section Calls

variable {p : Picture} {marks now : Marks}

theorem Call.Returns.continues {call : Call} (h : call.Returns p marks now) :
    marks.Continues now := by
  have hreturned : ∃ issues, analyze p marks = (.ok issues, now) := by
    cases call with
    | issues => exact h
    | account name => exact h.1
  obtain ⟨issues, hissues⟩ := hreturned
  have hmarks := analyze_continues (congrArg Prod.fst hissues)
  rwa [hissues] at hmarks

theorem Calls.continues {calls : List Call} (h : Calls p calls marks now) :
    marks.Continues now := by
  induction h with
  | nil marks => exact .refl marks
  | cons h _ ih => exact h.continues.trans ih

end Calls

/-- A picture whose variables state no uses was read, some calls returned and then some more.
The picture still reads as the same program, with the uses found. By the later calls, and by all of
them together, nothing was changed but the uses of variables: no flag was cleared, and places were
only added at the end. Each flag of a variable anywhere in the picture is set exactly if one of its
places says so. -/
theorem calls_change_only_uses {v : Value} {p : Picture} {first mid now : Marks}
    {before calls : List Call} (hread : v.toPicture.run {} = .ok (p, first))
    (hunused : v.AllUses (· = {})) (hbefore : Calls p before first mid)
    (hcalls : Calls p calls mid now) :
    (v.renewed first now).toPicture.run {} = .ok (p, now) ∧
      (v.renewed first mid).UsesChanged Precedes (v.renewed first now) ∧
      v.UsesChanged Precedes (v.renewed first now) ∧
      (v.renewed first now).AllUses Coherent := by
  have hmid := hbefore.continues
  have hnow := hcalls.continues
  obtain ⟨hchanged, hsince, hagain⟩ := Value.renewed_reads hread hmid hnow hunused
  refine ⟨hagain, ?_, ?_, ?_⟩
  · exact hsince.mono fun _ _ h => h.precedes
  · exact hchanged.mono fun _ _ h => h.precedes
  · refine hchanged.allUses hunused ?_ ?_
    · rintro _ rfl
      exact coherent_unused
    · rintro _ later rfl hlater
      exact coherent_unused.continues hlater

/-! A program that is analysed, asked for an account of a variable and analysed again. -/

theorem headerNamed_unused (name : String) : (headerNamed name).AllUses (· = {}) := by
  rw [headerNamed, Value.allUses_element_iff (by simp)]
  simp

theorem reference_unused (name : String) : (reference name).AllUses (· = {}) :=
  .dict (by simp [Value.isAtom]) (by simp)

theorem globalConnection_unused (target source : String) :
    (globalConnection target source).AllUses (· = {}) := by
  rw [globalConnection, Value.allUses_element_iff (by simp)]
  simp [reference_unused]

theorem integerNamed_unused (name : String) : (integerNamed name).AllUses (· = {}) := by
  change (Value.variableWith [.text name, .simpleType .integer, .bool false, .bool false,
    .bool false, .bool false, .bool false, .null, .null] {}).AllUses (· = {})
  exact .declared rfl (by simp) rfl

theorem mentioning_unused : mentioningValue.AllUses (· = {}) := by
  rw [mentioningValue, Value.allUses_element_iff (by simp)]
  simp [Value.allUses_element_iff, headerNamed_unused, globalConnection_unused,
    integerNamed_unused]

/-- The marks after as many analyses. -/
def mentioningMarksAfter : Nat → Marks
  | 0 => mentioningMarks
  | n + 1 => (analyze mentioningPicture (mentioningMarksAfter n)).2

theorem mentioning_issues {n : Nat}
    (h : (analyze mentioningPicture (mentioningMarksAfter n)).1.toOption.isSome = true) :
    Call.issues.Returns mentioningPicture (mentioningMarksAfter n)
      (mentioningMarksAfter (n + 1)) := by
  cases hrun : (analyze mentioningPicture (mentioningMarksAfter n)).1 with
  | error problem =>
    rw [hrun] at h
    cases h
  | ok issues => exact ⟨issues, Prod.ext hrun rfl⟩

theorem mentioning_calls :
    Calls mentioningPicture [.issues] (mentioningMarksAfter 0) (mentioningMarksAfter 1) ∧
      Calls mentioningPicture [.account (.text "tank"), .issues] (mentioningMarksAfter 1)
        (mentioningMarksAfter 3) := by
  have hfirst := mentioning_issues (n := 0) (by decide)
  have hsecond := mentioning_issues (n := 1) (by decide)
  have hthird := mentioning_issues (n := 2) (by decide)
  exact ⟨.cons hfirst (.nil _), .cons ⟨hsecond, _, rfl⟩ (.cons hthird (.nil _))⟩

/-- What the calls leave in the picture: one read more of `Tank` by each. -/
theorem mentioning_changed_only_uses :
    mentioningValue.toPicture.run {} = .ok (mentioningPicture, mentioningMarksAfter 0) ∧
      mentioningValue.AllUses (· = {}) ∧
      (mentioningValue.renewed mentioningMarks (mentioningMarksAfter 3)).toPicture.run {} =
        .ok (mentioningPicture, mentioningMarksAfter 3) ∧
      (mentioningValue.renewed mentioningMarks (mentioningMarksAfter 1)).UsesChanged Precedes
        (mentioningValue.renewed mentioningMarks (mentioningMarksAfter 3)) ∧
      (mentioningValue.renewed mentioningMarks (mentioningMarksAfter 3)).AllUses Coherent ∧
      (mentioningMarksAfter 1).get (integerVariable 0 "Tank") =
        ⟨true, false, [(["Plant", "TypeDef:Pump"], .read)]⟩ := by
  obtain ⟨hbefore, hcalls⟩ := mentioning_calls
  obtain ⟨hagain, hchanged, -, hcoherent⟩ :=
    calls_change_only_uses mentioning_read mentioning_unused hbefore hcalls
  exact ⟨mentioning_read, mentioning_unused, hagain, hchanged, hcoherent, by decide⟩

end Usage

end SattLine
