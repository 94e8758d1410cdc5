import SattLine.Proofs.Menu.Outcome

/-!
Unsaved changes of the settings. A machine notes what it asks and what it writes; the settings are
saved when a turn writes their file. Main statement: if the settings differ from what was loaded or
saved last, quitting asks whether to save them, whatever was entered before.
-/

namespace SattLine.Menu

/-- What is noted of a dialogue. -/
inductive Event where
  | asked (text : String) (answer : Option String)
  | wrote (location : Location) (text : String)

def Event.isWrite : Event → Bool
  | .asked _ _ => false
  | .wrote _ _ => true

/-- The writes among some events. -/
def writes (events : List Event) : List Event :=
  events.filter Event.isWrite

section Noting

variable {W α : Type}

/-- A step of the machine of which nothing is noted. -/
def quietly (x : StateM W α) : StateM (W × List Event) α := fun (w, events) =>
  let (a, w') := x w
  (a, (w', events))

/-- A step of the machine, and what is noted of it. -/
def noted (x : StateM W α) (event : α → Event) : StateM (W × List Event) α := fun (w, events) =>
  let (a, w') := x w
  (a, (w', events ++ [event a]))

/-- The machine with notes of its questions and its writes. -/
def Host.noting (host : Host (StateM W)) : Host (StateM (W × List Event)) where
  clear := quietly host.clear
  say text := quietly (host.say text)
  ask text := noted (host.ask text) (.asked text)
  look location := quietly (host.look location)
  write location text := noted (host.write location text) fun _ => .wrote location text
  survey folders := quietly (host.survey folders)

end Noting

/-- A dialogue whose questions and writes are noted. -/
abbrev Watched (W : Type) : Type → Type :=
  Dialogue (StateM (W × List Event))

section Steady

variable {W α β : Type} {s s' : Settings} {w w' : W × List Event}

/-- A dialogue that changes no setting and writes nothing, however it ends. -/
def Steady (d : Watched W α) : Prop :=
  ∀ s w, (outcome d s w).1.2 = s ∧
    ∃ more, (outcome d s w).2.2 = w.2 ++ more ∧ writes more = []

theorem steady_pure (a : α) : Steady (pure a : Watched W α) :=
  fun _ _ => ⟨rfl, [], by simp [writes]⟩

theorem steady_throw (stop : Stop) :
    Steady (throw stop : Watched W α) :=
  fun _ _ => ⟨rfl, [], by simp [writes]⟩

theorem steady_get : Steady (get : Watched W Settings) :=
  fun _ _ => ⟨rfl, [], by simp [writes]⟩

variable {d : Watched W α} {k : α → Watched W β}

theorem Steady.bind (hd : Steady d) (hk : ∀ a, Steady (k a)) : Steady (d >>= k) := by
  intro s w
  have hfirst := hd s w
  rw [outcome_bind]
  generalize outcome d s w = first at hfirst ⊢
  obtain ⟨⟨result, s'⟩, w'⟩ := first
  obtain ⟨rfl, more, hmore, hwrites⟩ := hfirst
  cases result with
  | error stop => exact ⟨rfl, more, hmore, hwrites⟩
  | ok a =>
    obtain ⟨hs, others, hothers, hwrites'⟩ := hk a s' w'
    refine ⟨hs, more ++ others, ?_, ?_⟩
    · rw [hothers, show w'.2 = w.2 ++ more from hmore, List.append_assoc]
    · rw [writes, List.filter_append]
      exact List.append_eq_nil_iff.mpr ⟨hwrites, hwrites'⟩

theorem Steady.ends {result : Except Stop α} (hd : Steady d)
    (h : outcome d s w = ((result, s'), w')) : s' = s ∧ writes w'.2 = writes w.2 := by
  obtain ⟨hs, more, hmore, hwrites⟩ := hd s w
  rw [h] at hs hmore
  refine ⟨hs, ?_⟩
  rw [show w'.2 = w.2 ++ more from hmore, writes, List.filter_append]
  exact (congrArg _ hwrites).trans (List.append_nil _)

/-- A dialogue goes on behind a steady one with the same settings. -/
theorem Steady.of_bind {b : β} (hd : Steady d) (h : outcome (d >>= k) s w = ((.ok b, s'), w')) :
    ∃ a v, writes v.2 = writes w.2 ∧ outcome (k a) s v = ((.ok b, s'), w') := by
  obtain ⟨a, t, v, hfirst, hrest⟩ := outcome_bind_eq_ok h
  obtain ⟨rfl, hwrites⟩ := hd.ends hfirst
  exact ⟨a, v, hwrites, hrest⟩

theorem steady_quietly (x : StateM W α) :
    Steady (liftM (quietly x) : Watched W α) :=
  fun _ _ => ⟨rfl, [], (List.append_nil _).symm, rfl⟩

theorem steady_asked (x : StateM W (Option String)) (text : String) :
    Steady (liftM (noted x (.asked text)) : Watched W _) :=
  fun _ _ => ⟨rfl, [.asked text _], rfl, rfl⟩

theorem steady_ofFault (result : Except Fault α) :
    Steady (ofFault result : Watched W α) := by
  cases result with
  | ok a => exact steady_pure a
  | error f => exact steady_throw _

theorem steady_setting (name : String) :
    Steady (setting name : Watched W Value) :=
  steady_get.bind fun _ => steady_ofFault _

theorem steady_forM {items : List α} {f : α → Watched W Unit}
    (h : ∀ a, Steady (f a)) : Steady (items.forM f) := by
  induction items with
  | nil => exact steady_pure ()
  | cons a items ih => exact (h a).bind fun _ => ih

theorem steady_ite {c : Prop} [Decidable c] {e : Watched W α} (hd : Steady d) (he : Steady e) :
    Steady (if c then d else e) := by
  split <;> assumption

variable (host : Host (StateM W))

theorem steady_clear : Steady (liftM host.noting.clear : Watched W Unit) :=
  steady_quietly _

theorem steady_print (text : String) : Steady (host.noting.print text) :=
  steady_quietly _

theorem steady_input (text : String) : Steady (host.noting.input text) := by
  refine (steady_asked _ _).bind fun answer => ?_
  cases answer with
  | none => exact steady_throw _
  | some line => exact steady_pure line

theorem steady_pause : Steady host.noting.pause :=
  (steady_input host _).bind fun _ => steady_pure ()

theorem steady_confirm (text : String) : Steady (host.noting.confirm text) :=
  (steady_input host _).bind fun _ => steady_pure _

theorem steady_prompt (text : String) : Steady (host.noting.prompt text) :=
  (steady_input host _).bind fun _ => steady_pure _

theorem steady_choice : Steady host.noting.choice :=
  (steady_input host _).bind fun _ => steady_pure _

theorem steady_promptFor (text : String) (old : Value) :
    Steady (host.noting.promptFor text old) := by
  unfold Host.promptFor
  split
  · exact (steady_prompt host _).bind fun _ => steady_pure _
  · exact (steady_input host _).bind fun _ => steady_pure _

theorem steady_contains (location : Location) : Steady (host.noting.contains location) := by
  refine (steady_quietly _).bind fun entry => ?_
  split
  · exact steady_throw _
  · exact steady_pure _

theorem steady_rootIn (root : String) (folders : List Location) :
    Steady (rootIn host.noting root folders) := by
  induction folders with
  | nil => exact steady_pure false
  | cons folder rest ih =>
    refine (steady_contains host folder).bind fun there => ?_
    refine steady_ite ?_ ih
    exact (steady_setting _).bind fun _ => (steady_contains host _).bind fun _ =>
      steady_ite (steady_pure true) ih

theorem steady_rootExists (root : Value) : Steady (rootExists host.noting root) :=
  (steady_setting _).bind fun _ => (steady_ofFault _).bind fun _ => (steady_setting _).bind fun _ =>
    (steady_ofFault _).bind fun _ => steady_rootIn host _ _

theorem steady_checkFolder (name : String) : Steady (checkFolder host.noting name) := by
  refine steady_get.bind fun s => (steady_ofFault _).bind fun folder =>
    (steady_contains host folder).bind fun there => steady_ite ?_ ?_
  · exact (steady_print host _).bind fun _ => steady_pure _
  · exact (steady_print host _).bind fun _ => steady_pure _

theorem steady_checkLibrary (v : Value) : Steady (checkLibrary host.noting v) :=
  (steady_ofFault _).bind fun folder => (steady_contains host folder).bind fun _ =>
    steady_ite (steady_print host _) (steady_print host _)

theorem steady_checkRoot : Steady (checkRoot host.noting) := by
  refine steady_get.bind fun s => (steady_rootExists host _).bind fun there => steady_ite ?_ ?_
  · exact (steady_setting _).bind fun _ => (steady_print host _).bind fun _ => steady_pure _
  · exact (steady_print host _).bind fun _ => steady_pure _

theorem steady_selfCheck : Steady (selfCheck host.noting) := by
  refine (steady_print host _).bind fun _ => (steady_print host _).bind fun _ =>
    steady_get.bind fun s => ?_
  refine (steady_forM fun name => steady_print host _).bind fun _ =>
    (steady_checkFolder host _).bind fun _ => (steady_checkFolder host _).bind fun _ =>
    steady_get.bind fun _ => (steady_ofFault _).bind fun _ =>
    (steady_forM (steady_checkLibrary host)).bind fun _ => (steady_checkRoot host).bind fun _ =>
    (steady_print host _).bind fun _ => steady_pure _

theorem steady_showSettings : Steady (showSettings host.noting) := by
  refine (steady_print host _).bind fun _ => ?_
  have hshown (name : String) := (steady_setting name).bind fun (v : Value) =>
    steady_print host (Text.padRight 16 name ++ ": " ++ v.plain)
  exact (steady_forM hshown).bind fun _ => (steady_print host _).bind fun _ =>
    (steady_setting _).bind fun _ => (steady_ofFault _).bind fun _ =>
    (steady_forM fun _ => steady_print host _).bind fun _ => steady_print host _

theorem steady_loader : Steady (loader : Watched W Project.Loader) := by
  refine (steady_setting _).bind fun _ => (steady_ofFault _).bind fun _ =>
    (steady_setting _).bind fun _ => (steady_ofFault _).bind fun _ =>
    (steady_setting _).bind fun _ => (steady_ofFault _).bind fun _ =>
    (steady_setting _).bind fun mode => ?_
  split
  · exact steady_throw _
  · exact (steady_setting _).bind fun _ => (steady_setting _).bind fun _ =>
    (steady_setting _).bind fun _ => steady_pure _

theorem steady_loadProject : Steady (loadProject host.noting) := by
  refine steady_loader.bind fun loader => (steady_setting _).bind fun root =>
    (steady_ofFault _).bind fun name => (steady_quietly _).bind fun store => ?_
  split
  · exact steady_throw _
  · split
    · exact steady_throw _
    · exact steady_pure _

theorem steady_runAnalysis : Steady (runAnalysis host.noting) := by
  refine (steady_loadProject host).bind fun loaded => ?_
  split
  · exact steady_throw _
  · exact (steady_print host _).bind fun _ => steady_pause host

theorem steady_outputsTurn : Steady (outputsTurn host.noting) := by
  refine (steady_clear host).bind fun _ => (steady_print host _).bind fun _ =>
    (steady_choice host).bind fun choice => steady_ite (steady_pure _) ?_
  refine (steady_loadProject host).bind fun _ => ?_
  have hinvalid : Steady (do
      host.noting.print "Invalid choice."
      return true) :=
    (steady_print host _).bind fun _ => steady_pure true
  split
  · refine (steady_confirm host _).bind fun _ => steady_ite ?_ hinvalid
    exact (steady_throw _).bind fun _ => hinvalid
  · exact hinvalid

end Steady

section Changing

variable {W α : Type} (host : Host (StateM W)) {s s' : Settings} {w w' : W × List Event}
  {file : Location}

/-- A dialogue that writes nothing and tells whether it changed a setting. -/
def Tells (d : Watched W Bool) : Prop :=
  ∀ s w changed s' w', outcome d s w = ((.ok changed, s'), w') →
    writes w'.2 = writes w.2 ∧ (changed = false → s' = s)

variable {d : Watched W Bool}

theorem Steady.tells (hd : Steady d) : Tells d := by
  intro s w changed s' w' h
  obtain ⟨hs, hwrites⟩ := hd.ends h
  exact ⟨hwrites, fun _ => hs⟩

theorem tells_change (name : String) (value : Value) :
    Tells (do
      change name value
      return true : Watched W Bool) := by
  intro s w changed s' w' h
  cases h
  exact ⟨rfl, nofun⟩

theorem Steady.bind_tells {d : Watched W α}
    {k : α → Watched W Bool} (hd : Steady d) (hk : ∀ a, Tells (k a)) :
    Tells (d >>= k) := by
  intro s w changed s' w' h
  obtain ⟨a, t, v, hfirst, hrest⟩ := outcome_bind_eq_ok h
  obtain ⟨rfl, hwrites⟩ := hd.ends hfirst
  obtain ⟨hwrites', hsame⟩ := hk a _ _ _ _ _ hrest
  exact ⟨hwrites'.trans hwrites, hsame⟩

theorem tells_ite {c : Prop} [Decidable c] {e : Watched W Bool} (hd : Tells d) (he : Tells e) :
    Tells (if c then d else e) := by
  split <;> assumption

theorem tells_false : Tells (return false : Watched W Bool) :=
  (steady_pure false).tells

theorem tells_changeRoot : Tells (changeRoot host.noting) := by
  refine (steady_setting _).bind_tells fun old => (steady_promptFor host _ _).bind_tells fun root =>
    (steady_rootExists host _).bind_tells fun there => tells_ite ?_ ?_
  · exact (steady_print host _).bind_tells fun _ => (steady_pause host).bind_tells fun _ =>
    tells_false
  · exact (steady_confirm host _).bind_tells fun _ => tells_ite (tells_change _ _) tells_false

theorem tells_changeMode : Tells (changeMode host.noting) :=
  (steady_setting _).bind_tells fun _ => (steady_confirm host _).bind_tells fun _ =>
    tells_ite (tells_change _ _) tells_false

theorem tells_toggle (name : String) : Tells (toggle host.noting name) :=
  (steady_confirm host _).bind_tells fun _ =>
    tells_ite ((steady_setting name).bind_tells fun _ => tells_change _ _) tells_false

theorem tells_changeFolder (name : String) : Tells (changeFolder host.noting name) :=
  (steady_setting _).bind_tells fun _ => (steady_promptFor host _ _).bind_tells fun _ =>
    (steady_confirm host _).bind_tells fun _ => tells_ite (tells_change _ _) tells_false

theorem tells_changeLibraries : Tells (changeLibraries host.noting) := by
  refine (steady_setting _).bind_tells fun libraries => (steady_print host _).bind_tells fun _ =>
    (steady_ofFault _).bind_tells fun items =>
    (steady_forM fun _ => steady_print host _).bind_tells fun _ =>
    (steady_confirm host _).bind_tells fun _ => tells_ite ?_ ?_
  · split
    · exact (steady_prompt host _).bind_tells fun _ => tells_change _ _
    · exact (steady_throw _).tells
  · refine (steady_confirm host _).bind_tells fun _ => tells_ite ?_ tells_false
    refine (steady_prompt host _).bind_tells fun _ => ?_
    split
    · exact (steady_throw _).tells
    · refine (steady_ofFault _).bind_tells fun rest => ?_
      split
      · exact tells_change _ _
      · exact tells_false

/-- Saving changes no setting, and it writes. -/
theorem saveSettings_ends (h : outcome (saveSettings host.noting file) s w = ((.ok (), s'), w')) :
    s' = s ∧ (writes w'.2).length ≠ (writes w.2).length := by
  obtain ⟨t, w₁, hw₁, h₁⟩ := steady_get.of_bind h
  obtain ⟨text, w₂, hw₂, h₂⟩ := (steady_ofFault _).of_bind h₁
  obtain ⟨result, s₃, w₃, hwrite, h₃⟩ := outcome_bind_eq_ok h₂
  have hnoted : s₃ = s ∧ writes w₃.2 = writes w₂.2 ++ [Event.wrote file text] := by
    cases hwrite
    exact ⟨rfl, List.filter_append _ _⟩
  obtain ⟨rfl, hw₃⟩ := hnoted
  have hrest : s' = s₃ ∧ writes w'.2 = writes w₃.2 := by
    cases result with
    | ok u => exact (steady_print host _).ends h₃
    | error cause => exact (steady_throw _).ends h₃
  refine ⟨hrest.1, ?_⟩
  rw [hrest.2, hw₃, hw₂, hw₁]
  simp

/-- What a turn in the menu of settings leaves behind: it tells of every change that it did not
save. -/
inductive SettingsTurned (unsaved : Bool) (s s' : Settings) (w w' : W × List Event) :
    Option Bool → Prop
  | back (hs : s' = s) (hw : writes w'.2 = writes w.2) : SettingsTurned unsaved s s' w w' none
  | asBefore (hs : s' = s) (hw : writes w'.2 = writes w.2) :
      SettingsTurned unsaved s s' w w' (some unsaved)
  | changed (hw : writes w'.2 = writes w.2) : SettingsTurned unsaved s s' w w' (some true)
  | saved (hs : s' = s) (hw : (writes w'.2).length ≠ (writes w.2).length) :
      SettingsTurned unsaved s s' w w' (some false)

variable {unsaved : Bool} {next : Option Bool}

theorem Tells.turned (hd : Tells d)
    (h : outcome (do return some ((← d) || unsaved)) s w = ((.ok next, s'), w')) :
    SettingsTurned unsaved s s' w w' next := by
  obtain ⟨changed, t, v, hchange, h⟩ := outcome_bind_eq_ok h
  obtain ⟨hwrites, hsame⟩ := hd _ _ _ _ _ hchange
  cases h
  cases changed with
  | false => exact .asBefore (hsame rfl) hwrites
  | true => exact .changed hwrites

theorem settingsTurn_ends
    (h : outcome (settingsTurn host.noting file unsaved) s w = ((.ok next, s'), w')) :
    SettingsTurned unsaved s s' w w' next := by
  obtain ⟨-, w₁, hw₁, h₁⟩ := (steady_clear host).of_bind h
  obtain ⟨-, w₂, hw₂, h₂⟩ := (steady_showSettings host).of_bind h₁
  obtain ⟨-, w₃, hw₃, h₃⟩ := (steady_print host _).of_bind h₂
  obtain ⟨choice, w₄, hw₄, h₄⟩ := (steady_choice host).of_bind h₃
  have hbefore : writes w₄.2 = writes w.2 := by
    rw [hw₄, hw₃, hw₂, hw₁]
  suffices hturned : SettingsTurned unsaved s s' w₄ w' next by
    cases hturned with
    | back hs hw => exact .back hs (hw.trans hbefore)
    | asBefore hs hw => exact .asBefore hs (hw.trans hbefore)
    | changed hw => exact .changed (hw.trans hbefore)
    | saved hs hw => exact .saved hs (hbefore ▸ hw)
  split at h₄
  · cases h₄
    exact .back rfl rfl
  · exact (tells_changeRoot host).turned h₄
  · exact (tells_changeMode host).turned h₄
  · exact (tells_toggle host _).turned h₄
  · exact (tells_toggle host _).turned h₄
  · exact (tells_toggle host _).turned h₄
  · exact (tells_changeFolder host _).turned h₄
  · exact (tells_changeFolder host _).turned h₄
  · exact (tells_changeLibraries host).turned h₄
  · obtain ⟨confirmed, w₅, hw₅, h₅⟩ := (steady_confirm host _).of_bind h₄
    split at h₅
    · obtain ⟨_, s₆, w₆, hsave, h₆⟩ := outcome_bind_eq_ok h₅
      obtain ⟨rfl, hw₆⟩ := saveSettings_ends host hsave
      cases h₆
      exact .saved rfl (hw₅ ▸ hw₆)
    · cases h₅
      exact .asBefore rfl hw₅
  · obtain ⟨-, w₅, hw₅, h₅⟩ := (steady_print host _).of_bind h₄
    cases h₅
    exact .asBefore rfl hw₅

end Changing

section Quitting

variable {W α β : Type} {host : Host (StateM W)} {file : Location} {screen screen' : Screen}
  {s s' saved : Settings} {w : W} {v v' : W × List Event} {unsaved : Bool}

/-- The screens that are reached, with the settings, the settings that were loaded or saved last,
and the machine. A turn that writes the settings changes none of them. -/
inductive Reaches (host : Host (StateM W)) (file : Location) :
    Screen → Settings → Settings → W × List Event → Prop
  | start {s₀ loaded s : Settings} {v₀ v v' : W × List Event} {created : Bool} {screen : Screen}
      (hload : outcome (loadSettings host.noting file) s₀ v₀ = ((.ok created, loaded), v))
      (hstart : outcome (start host.noting file) s₀ v₀ = ((.ok screen, s), v')) :
      Reaches host file screen s loaded v'
  | turn {screen screen' : Screen} {s s' saved : Settings} {v v' : W × List Event}
      (h : Reaches host file screen s saved v)
      (hturn : outcome (turn host.noting file screen) s v = ((.ok screen', s'), v')) :
      Reaches host file screen' s'
        (if (writes v'.2).length = (writes v.2).length then saved else s') v'

/-- Nothing is unsaved unless the screen says so. -/
def Screen.Honest (s saved : Settings) : Screen → Prop
  | .main unsaved | .outputs unsaved => unsaved = false → s = saved
  | .settings unsavedBefore unsaved => unsavedBefore = false → unsaved = false → s = saved
  | .closed => True

theorem start_ends {created : Bool} {loaded : Settings}
    (hload : outcome (loadSettings host.noting file) s v = ((.ok created, loaded), v'))
    {v'' : W × List Event} (h : outcome (start host.noting file) s v = ((.ok screen, s'), v'')) :
    s' = loaded ∧ (screen = .main false ∨ screen = .closed) := by
  rw [start, outcome_bind_ok hload] at h
  split at h
  · obtain ⟨-, w₁, -, h₁⟩ := (steady_print host _).of_bind h
    obtain ⟨-, w₂, -, h₂⟩ := (steady_pause host).of_bind h₁
    cases h₂
    exact ⟨rfl, .inl rfl⟩
  · obtain ⟨fine, w₁, -, h₁⟩ := (steady_selfCheck host).of_bind h
    split at h₁
    · cases h₁
      exact ⟨rfl, .inl rfl⟩
    · obtain ⟨confirmed, w₂, -, h₂⟩ := (steady_confirm host _).of_bind h₁
      split at h₂
      · cases h₂
        exact ⟨rfl, .inl rfl⟩
      · cases h₂
        exact ⟨rfl, .inr rfl⟩

/-- A turn in the main menu that does not quit changes no setting, writes nothing and keeps in mind
what is unsaved. -/
theorem mainTurn_ends
    (h : outcome (mainTurn host.noting file unsaved) s v = ((.ok screen, s'), v')) :
    screen = .closed ∨
      s' = s ∧ writes v'.2 = writes v.2 ∧
        (screen = .main unsaved ∨ screen = .outputs unsaved ∨
          screen = .settings unsaved false) := by
  obtain ⟨-, w₁, hw₁, h₁⟩ := (steady_clear host).of_bind h
  obtain ⟨-, w₂, hw₂, h₂⟩ := (steady_print host _).of_bind h₁
  obtain ⟨choice, w₃, hw₃, h₃⟩ := (steady_choice host).of_bind h₂
  rw [hw₁] at hw₂
  rw [hw₂] at hw₃
  split at h₃
  · obtain ⟨confirmed, w₄, hw₄, h₄⟩ := (steady_confirm host _).of_bind h₃
    rw [hw₃] at hw₄
    dsimp only at h₄
    split at h₄
    · obtain ⟨-, w₅, hw₅, h₅⟩ := (steady_runAnalysis host).of_bind h₄
      cases h₅
      exact .inr ⟨rfl, hw₅.trans hw₄, .inl rfl⟩
    · cases h₄
      exact .inr ⟨rfl, hw₄, .inl rfl⟩
  · cases h₃
    exact .inr ⟨rfl, hw₃, .inr (.inl rfl)⟩
  · cases h₃
    exact .inr ⟨rfl, hw₃, .inr (.inr rfl)⟩
  · obtain ⟨-, w₄, hw₄, h₄⟩ := (steady_clear host).of_bind h₃
    obtain ⟨-, w₅, hw₅, h₅⟩ := (steady_selfCheck host).of_bind h₄
    obtain ⟨-, w₆, hw₆, h₆⟩ := (steady_pause host).of_bind h₅
    cases h₆
    exact .inr ⟨rfl, by rw [hw₆, hw₅, hw₄, hw₃], .inl rfl⟩
  · obtain ⟨_, s₄, w₄, -, h₄⟩ := outcome_bind_eq_ok h₃
    cases h₄
    exact .inl rfl
  · obtain ⟨-, w₄, hw₄, h₄⟩ := (steady_print host _).of_bind h₃
    cases h₄
    exact .inr ⟨rfl, hw₄.trans hw₃, .inl rfl⟩

theorem turn_honest (hhonest : screen.Honest s saved)
    (h : outcome (turn host.noting file screen) s v = ((.ok screen', s'), v')) :
    screen'.Honest s' (if (writes v'.2).length = (writes v.2).length then saved else s') := by
  cases screen with
  | main unsaved =>
    rcases mainTurn_ends h with rfl | ⟨rfl, hw, hscreen⟩
    · trivial
    · rw [hw, if_pos rfl]
      rcases hscreen with rfl | rfl | rfl
      · exact hhonest
      · exact hhonest
      · exact fun hbefore _ => hhonest hbefore
  | outputs unsaved =>
    obtain ⟨stay, w₁, hw₁, h₁⟩ := (steady_outputsTurn host).of_bind h
    cases h₁
    rw [hw₁, if_pos rfl]
    cases stay <;> exact hhonest
  | settings unsavedBefore unsaved =>
    obtain ⟨next, s₁, w₁, hturn, h₁⟩ := outcome_bind_eq_ok h
    cases settingsTurn_ends host hturn with
    | back hs hw =>
      cases h₁
      rw [hw, if_pos rfl]
      exact fun hclean => hs.trans
        (hhonest (Bool.or_eq_false_iff.mp hclean).1 (Bool.or_eq_false_iff.mp hclean).2)
    | asBefore hs hw =>
      cases h₁
      rw [hw, if_pos rfl]
      exact fun hbefore hclean => hs.trans (hhonest hbefore hclean)
    | changed hw =>
      cases h₁
      exact fun _ => nofun
    | saved hs hw =>
      cases h₁
      rw [if_neg hw]
      exact fun _ _ => rfl
  | closed =>
    cases h
    trivial

theorem Reaches.honest (h : Reaches host file screen s saved v) : screen.Honest s saved := by
  induction h with
  | start hload hstart =>
    obtain ⟨rfl, rfl | rfl⟩ := start_ends hload hstart
    · exact fun _ => rfl
    · trivial
  | turn _ hturn ih => exact turn_honest ih hturn

/-- Nothing that was noted is lost. -/
def Grows (d : Watched W α) : Prop :=
  ∀ s v, ∃ more, (outcome d s v).2.2 = v.2 ++ more

variable {d : Watched W α} {text : String} {k : String → Watched W α}

theorem Steady.grows (hd : Steady d) : Grows d := by
  intro s v
  obtain ⟨-, more, hmore, -⟩ := hd s v
  exact ⟨more, hmore⟩

theorem Grows.bind {k : α → Watched W β} (hd : Grows d) (hk : ∀ a, Grows (k a)) :
    Grows (d >>= k) := by
  intro s v
  have hfirst := hd s v
  rw [outcome_bind]
  generalize outcome d s v = first at hfirst ⊢
  obtain ⟨⟨result, s'⟩, v'⟩ := first
  obtain ⟨more, hmore⟩ := hfirst
  cases result with
  | error stop => exact ⟨more, hmore⟩
  | ok a =>
    obtain ⟨others, hothers⟩ := hk a s' v'
    refine ⟨more ++ others, ?_⟩
    rw [hothers, show v'.2 = v.2 ++ more from hmore, List.append_assoc]

theorem grows_saveSettings : Grows (saveSettings host.noting file) := by
  refine steady_get.grows.bind fun s => (steady_ofFault _).grows.bind fun text =>
    Grows.bind (fun _ _ => ⟨[.wrote file text], rfl⟩) fun result => ?_
  cases result with
  | ok u => exact (steady_print host _).grows
  | error cause => exact (steady_throw _).grows

theorem outcome_input (text : String) (k : String → Watched W α) :
    outcome (host.noting.input text >>= k) s v =
      match host.ask text v.1 with
      | (some line, w') => outcome (k line) s (w', v.2 ++ [Event.asked text (some line)])
      | (none, w') => ((.error .endOfInput, s), (w', v.2 ++ [Event.asked text none])) := by
  have hask : outcome (liftM (host.noting.ask text)) s v =
      ((.ok (host.ask text v.1).1, s),
        ((host.ask text v.1).2, v.2 ++ [Event.asked text (host.ask text v.1).1])) :=
    rfl
  rw [Host.input, bind_assoc, outcome_bind_ok hask]
  obtain ⟨answer, w'⟩ := host.ask text v.1
  cases answer <;> rfl

/-- A question is noted however the dialogue goes on. -/
theorem input_asked (hk : ∀ line, Grows (k line)) :
    ∃ answer more, (outcome (host.noting.input text >>= k) s v).2.2 =
      v.2 ++ Event.asked text answer :: more := by
  rw [outcome_input]
  obtain ⟨answer, w'⟩ := host.ask text v.1
  cases answer with
  | none => exact ⟨none, [], rfl⟩
  | some line =>
    obtain ⟨more, hmore⟩ := hk line s (w', v.2 ++ [Event.asked text (some line)])
    exact ⟨some line, more, by rw [hmore]; simp⟩

theorem outcome_choice (hk : ∀ choice, Grows (k choice)) {line : String} {events : List Event}
    (hnoted : (outcome (host.noting.choice >>= k) s v).2.2 =
      v.2 ++ Event.asked "> " (some line) :: events) :
    ∃ w', outcome (host.noting.choice >>= k) s v =
      outcome (k (Text.lower (Text.trim line))) s (w', v.2 ++ [Event.asked "> " (some line)]) := by
  have hchoice : host.noting.choice >>= k =
      host.noting.input "> " >>= fun line => k (Text.lower (Text.trim line)) := by
    simp only [Host.choice, bind_assoc, pure_bind]
  rw [hchoice, outcome_input] at hnoted ⊢
  generalize host.ask "> " v.1 = asked at hnoted ⊢
  obtain ⟨answer, w'⟩ := asked
  cases answer with
  | none => simp at hnoted
  | some given =>
    obtain ⟨more, hmore⟩ := hk (Text.lower (Text.trim given)) s
      (w', v.2 ++ [Event.asked "> " (some given)])
    have hgiven : given = line := by
      have hsame := hmore.symm.trans hnoted
      rw [List.append_assoc, List.append_cancel_left_eq] at hsame
      simpa using (List.cons.inj hsame).1
    subst hgiven
    exact ⟨w', rfl⟩

/-- A question that is to be answered with yes or no is noted however the dialogue goes on. -/
theorem confirm_asked {k : Bool → Watched W α} (hk : ∀ confirmed, Grows (k confirmed)) :
    ∃ answer more, (outcome (host.noting.confirm text >>= k) s v).2.2 =
      v.2 ++ Event.asked (text ++ " [y/N]: ") answer :: more := by
  simp only [Host.confirm, bind_assoc, pure_bind]
  exact input_asked fun _ => hk _

/-- After the question, the changes are saved or not, and the program takes its leave. -/
theorem grows_saveThenLeave (confirmed : Bool) :
    Grows (do
      if confirmed then saveSettings host.noting file
      host.noting.print "Bye.") := by
  cases confirmed with
  | false => exact (steady_print host _).grows
  | true => exact grows_saveSettings.bind fun _ => (steady_print host _).grows

theorem quit_unsaved (host : Host (StateM W)) (file : Location) :
    quit host.noting file true =
      (host.noting.confirm "Unsaved config changes. Save before quitting?" >>= fun confirmed => do
        if confirmed then saveSettings host.noting file
        host.noting.print "Bye.") :=
  rfl

theorem grows_quit : Grows (quit host.noting file unsaved) := by
  cases unsaved with
  | false => exact (steady_print host _).grows
  | true =>
    rw [quit_unsaved]
    exact (steady_confirm host _).grows.bind grows_saveThenLeave

theorem mainTurn_eq (host : Host (StateM W)) (file : Location) (unsaved : Bool) :
    ∃ chosen : String → Watched W Screen,
      mainTurn host.noting file unsaved =
        (do
          host.noting.clear
          host.noting.print mainText
          chosen (← host.noting.choice)) ∧
      (∀ choice, Grows (chosen choice)) ∧
      chosen "q" = (do
        quit host.noting file unsaved
        return .closed) := by
  refine ⟨_, rfl, fun choice => ?_, rfl⟩
  split
  · refine (steady_confirm host _).grows.bind fun confirmed => ?_
    have hmain : Grows (return .main unsaved : Watched W Screen) :=
      (steady_pure _).grows
    cases confirmed with
    | false => exact hmain
    | true => exact (steady_runAnalysis host).grows.bind fun _ => hmain
  · exact (steady_pure _).grows
  · exact (steady_pure _).grows
  · exact ((steady_clear host).bind fun _ => (steady_selfCheck host).bind fun _ =>
    (steady_pause host).bind fun _ => steady_pure _).grows
  · exact grows_quit.bind fun _ => (steady_pure _).grows
  · exact ((steady_print host _).bind fun _ => steady_pure _).grows

/-- Unsaved changes are never dropped without a question: if some setting is not what was loaded or
saved last, quitting the main menu asks whether to save before anything else. -/
theorem quit_asks_of_unsaved (h : Reaches host file (.main unsaved) s saved v) (name : String)
    (hname : s.get? name ≠ saved.get? name) (line : String) (events : List Event)
    (hnoted : (outcome (turn host.noting file (.main unsaved)) s v).2.2 =
      v.2 ++ .asked "> " (some line) :: events) (hquit : Text.lower (Text.trim line) = "q") :
    ∃ answer, events.head? =
      some (.asked "Unsaved config changes. Save before quitting? [y/N]: " answer) := by
  have hunsaved : unsaved = true := by
    rw [← Bool.not_eq_false]
    exact fun hclean => hname (h.honest hclean ▸ rfl)
  subst hunsaved
  obtain ⟨chosen, hmain, hgrows, hchosen⟩ := mainTurn_eq host file true
  have hclear : outcome (liftM host.noting.clear : Watched W Unit) s v =
      ((.ok (), s), ((host.clear v.1).2, v.2)) := rfl
  have hprint (w' : W) : outcome (host.noting.print mainText) s (w', v.2) =
      ((.ok (), s), ((host.say (mainText ++ "\n") w').2, v.2)) := rfl
  rw [turn, hmain, outcome_bind_ok hclear, outcome_bind_ok (hprint _)] at hnoted
  obtain ⟨w', hw'⟩ := outcome_choice hgrows hnoted
  rw [hw', hquit, hchosen, quit_unsaved, bind_assoc] at hnoted
  obtain ⟨answer, more, hmore⟩ := @confirm_asked _ _ host s (w', v.2 ++ [Event.asked "> " (some line)])
    "Unsaved config changes. Save before quitting?" _ fun confirmed =>
      (grows_saveThenLeave confirmed).bind fun _ => (steady_pure Screen.closed).grows
  have htext : "Unsaved config changes. Save before quitting?" ++ " [y/N]: " =
      "Unsaved config changes. Save before quitting? [y/N]: " := by decide
  have hsame := hmore.symm.trans hnoted
  rw [List.append_assoc, List.append_cancel_left_eq] at hsame
  refine ⟨answer, ?_⟩
  rw [← (List.cons.inj hsame).2, htext]
  rfl

/-- A machine without files, and lines that are entered one after the other. -/
def typist : Host (StateM (List String)) where
  clear := pure ()
  say _ := pure ()
  ask _ := fun lines => (lines.head?, lines.tail)
  look _ := return .absent .missing
  write _ _ := return .ok ()
  survey _ := return {}

/-- What is noted while a new installation is started. -/
def starting : List Event :=
  [.wrote ⟨false, ["config.toml"]⟩ (Settings.initial.render.toOption.getD ""),
    .asked "\nPress Enter to continue..." (some "")]

/-- What is noted while its mode is switched in the menu of settings. -/
def switching : List Event :=
  [.asked "> " (some "3"), .asked "> " (some "2"),
    .asked "Switch mode to 'draft'? [y/N]: " (some "y"), .asked "> " (some "b")]

/-- The changed mode has not been saved. -/
theorem typist_reaches : Reaches typist ⟨false, ["config.toml"]⟩ (.main true)
    (Settings.initial.put "mode" (.text "draft")) Settings.initial
    (["q", "n"], starting ++ switching) := by
  have hstart := @Reaches.start _ typist ⟨false, ["config.toml"]⟩ {} Settings.initial
    Settings.initial (["", "3", "2", "y", "b", "q", "n"], []) _
    (["3", "2", "y", "b", "q", "n"], starting) true (.main false) rfl rfl
  have hmenu := @Reaches.turn _ _ _ _ (.settings false false) _ Settings.initial _ _
    (["2", "y", "b", "q", "n"], starting ++ [Event.asked "> " (some "3")]) hstart rfl
  have hmode := @Reaches.turn _ _ _ _ (.settings false true) _
    (Settings.initial.put "mode" (.text "draft")) _ _
    (["b", "q", "n"], starting ++ [Event.asked "> " (some "3"), .asked "> " (some "2"),
      .asked "Switch mode to 'draft'? [y/N]: " (some "y")]) hmenu rfl
  exact hmode.turn rfl

theorem typist_asked :
    ∃ events answer,
      (outcome (turn typist.noting ⟨false, ["config.toml"]⟩ (.main true))
        (Settings.initial.put "mode" (.text "draft")) (["q", "n"], starting ++ switching)).2.2 =
          starting ++ switching ++ .asked "> " (some "q") :: events ∧
      events.head? =
        some (.asked "Unsaved config changes. Save before quitting? [y/N]: " answer) := by
  have hmode : (Settings.initial.put "mode" (.text "draft")).get? "mode" ≠
      Settings.initial.get? "mode" := by
    change some (Value.text "draft") ≠ some (Value.text "official")
    simp
  obtain ⟨answer, hasked⟩ := quit_asks_of_unsaved typist_reaches "mode" hmode "q" _ rfl rfl
  exact ⟨_, answer, rfl, hasked⟩

end Quitting

end SattLine.Menu
