import SattLine.Proofs.Usage.Chain

/-!
The walk over nested modules and module types. The walk over a module type leaves an entry with all
used parameters behind, whatever entries other types left before it; so a type that is met again
is looked up and not walked. Main statement: the walk over any module type does that, since the
types do not contain each other and so the given depth is never used up.
-/

namespace SattLine.Usage

open Walk

/-- A body whose variables have different names, without dots, and are among the first `n` of the
program. -/
structure Fits (n : Nat) (body : Body) : Prop where
  nodup : (body.scope.map Variable.key).Nodup
  plain : ∀ v ∈ body.scope, '.' ∉ v.key.toList
  id_lt : ∀ v ∈ body.scope, v.id < n

variable {body : Body}

theorem Fits.find? {n : Nat} (h : Fits n body) {v : Variable} (hv : v ∈ body.scope) :
    Variable.find? body.scope v.key = some v :=
  Variable.find?_key h.nodup hv

/-- A module has its uses marked: every variable of its own that it uses. -/
def Marked (p : Picture) (body : Body) (s : State) : Prop :=
  ∀ ⦃access⦄, ∀ v ∈ body.scope, Uses p access body v.key → s.marks.Has v access

theorem Marked.grows {p : Picture} {s s' : State} (h : Marked p body s) (hgrows : s.Grows s') :
    Marked p body s' :=
  fun access v hv huses => hgrows.marks.keeps v access (h v hv huses)

/-- What the walk over a module type does: it marks its variables and leaves a complete entry. -/
structure Completed (p : Picture) (type : TypeDef) (s s' : State) : Prop where
  grows : s.Grows s'
  informed : Informed p s'
  marked : Marked p type.body s'
  entry : ∃ use, (type.key, use) ∈ s'.typeUse

def Completes (p : Picture) (n : Nat) (onType : TypeDef → Path → Walk Unit) (type : TypeDef) :
    Prop :=
  ∀ ⦃path s u s'⦄, (onType type path).Ends s u s' → s.marks.entries.size = n → Informed p s →
    Completed p type s s'

/-- What the walk over modules in a scope does: it marks what they use of the scope, and what
they and the modules in them use of their own. -/
structure Walked (p : Picture) (n : Nat) (scope : List Variable) (modules : List Module)
    (s s' : State) : Prop where
  grows : s.Grows s'
  informed : Informed p s'
  inside : ∀ {info inner}, Module.Inside modules (.single info inner) →
    Marked p (info.body inner) s'
  marks : ∀ {access x v}, Variable.find? scope x = some v → v.id < n → '.' ∉ x.toList →
    Uses p access (bodyOf modules) x → s'.marks.Has v access

/-- Modules whose types are walked completely and whose variables can be told apart. -/
structure Ready (p : Picture) (n : Nat) (onType : TypeDef → Path → Walk Unit)
    (modules : List Module) : Prop where
  types : ∀ {info type}, Module.Inside modules (.typed info) →
    p.type? info.typeName = some type → Fits n type.body ∧ Completes p n onType type
  scopes : ∀ {info inner}, Module.Inside modules (.single info inner) → Fits n (info.body inner)

section Modules

variable {p : Picture} {n : Nat} {onType : TypeDef → Path → Walk Unit} {path : Path} {u : Unit}
  {s s' : State} {scope : List Variable}

theorem typeUse_complete {type : TypeDef} {use : ParameterUse} (ht : type ∈ p.types)
    (hon : Completes p n onType type) (h : (typeUse onType type path).Ends s use s')
    (hsize : s.marks.entries.size = n) (hs : Informed p s) :
    s.Grows s' ∧ Informed p s' ∧ ∀ access, ∀ v ∈ type.parameters,
      Uses p access type.body v.key → use.Has access v.key := by
  rcases typeUse_ends h with ⟨hlookup, rfl⟩ | ⟨-, hwalk, rfl⟩
  · exact ⟨.refl _, hs, hs type ht use (mem_of_lookup hlookup)⟩
  · have hdone := hon hwalk hsize hs
    obtain ⟨other, hentry⟩ := hdone.entry
    obtain ⟨found, hfound⟩ := lookup_of_mem hentry
    rw [hfound]
    exact ⟨hdone.grows, hdone.informed, hdone.informed type ht found (mem_of_lookup hfound)⟩

/-- A module whose own code is recorded and whose submodules are walked has its uses marked. -/
theorem Walked.marked {body : Body} (hfits : Fits n body) {t : State}
    (hcode : (record p body.scope path (code body.code)).Ends t u s)
    (hsize : t.marks.entries.size = n) (h : Walked p n body.scope body.submodules s s') :
    Marked p body s' := by
  intro access v hv hx
  have hfind := hfits.find? hv
  have hid := hfits.id_lt v hv
  have hplain := hfits.plain v hv
  rcases hx.code_or_below with hx | hx
  · exact h.grows.marks.keeps v access (record_found hcode (hx.found hplain) hfind (hsize ▸ hid))
  · exact h.marks hfind hid hplain hx

/-- The walk over these modules does so from every state. -/
def Walks (p : Picture) (n : Nat) (onType : TypeDef → Path → Walk Unit) (modules : List Module) :
    Prop :=
  ∀ ⦃scope path s u s'⦄, (walkModules p onType scope path modules).Ends s u s' →
    s.marks.entries.size = n → Informed p s → Walked p n scope modules s s'

variable {inner : List Module}

theorem single_walked {info : SingleInfo} (hfits : Fits n (info.body inner))
    (ih : Walks p n onType inner)
    (h : (walkModule p onType scope path (.single info inner)).Ends s u s')
    (hsize : s.marks.entries.size = n) (hs : Informed p s) :
    Walked p n scope [.single info inner] s s' := by
  simp only [walkModule, ends_bind, ends_get] at h
  obtain ⟨_, s₁, hheader, _, s₂, hdefinition, _, s₃, hcode, _, _, hinner, _, s₄, ⟨rfl, rfl⟩,
    _, s₅, hlink, _, s₆, hpass, hcheck⟩ := h
  have h₂ := (record_grows hheader).trans (record_grows hdefinition)
  have h₃ := h₂.trans (record_grows hcode)
  have hwalked := ih hinner (h₃.marks.size_eq.trans hsize) (hs.of_eq h₃.typeUse_eq)
  have hmarked : Marked p (info.body inner) s₄ :=
    Walked.marked hfits hcode (h₂.marks.size_eq.trans hsize) hwalked
  have h₄ := h₃.toGrows.trans hwalked.grows
  have h₅ := link_grows hlink
  have h₇ := (h₅.trans (passOnAll_grows hpass)).trans (checkMappings_grows hcheck)
  refine ⟨h₄.trans h₇.toGrows, hwalked.informed.of_eq h₇.typeUse_eq, ?_, ?_⟩
  · intro below belowInner hm
    rcases hm.of_single with heq | hm
    · cases heq
      exact hmarked.grows h₇.toGrows
    · exact (hwalked.inside hm).grows h₇.toGrows
  · intro access x v hv hid hplain hx
    obtain ⟨m, hm, w, hw, hconnects, huses⟩ | ⟨_, _, heq, -⟩ := hx.of_one
    case inr => cases heq
    -- The parameter is marked inside, and its mark is passed on to the source.
    have hscope : w ∈ (info.body inner).scope := List.mem_append_left _ hw
    have huse := ParameterUse.has_ofMarks hw (hmarked w hscope huses)
    refine (checkMappings_grows hcheck).marks.keeps v access ?_
    refine passOnAll_keeps hm ?_ (fun hone hlt => ?_) hpass
    case refine_2 => exact passOn_has hone hconnects (hfits.plain w hscope) huse hplain hv hlt
    rw [h₅.marks.size_eq, h₄.marks.size_eq, hsize]
    exact hid

theorem frame_walked {info : FrameInfo} (ih : Walks p n onType inner)
    (h : (walkModule p onType scope path (.frame info inner)).Ends s u s')
    (hsize : s.marks.entries.size = n) (hs : Informed p s) :
    Walked p n scope [.frame info inner] s s' := by
  simp only [walkModule, ends_bind] at h
  obtain ⟨_, s₁, hheader, _, s₂, hdefinition, _, s₃, hcode, hinner⟩ := h
  have h₂ := (record_grows hheader).trans (record_grows hdefinition)
  have h₃ := h₂.trans (record_grows hcode)
  have hwalked := ih hinner (h₃.marks.size_eq.trans hsize) (hs.of_eq h₃.typeUse_eq)
  refine ⟨h₃.toGrows.trans hwalked.grows, hwalked.informed, ?_, ?_⟩
  · exact fun hm => hwalked.inside hm.of_frame
  · intro access x v hv hid hplain hx
    rcases hx.of_one with hx | ⟨_, _, heq, hx⟩
    · refine hwalked.grows.marks.keeps v access (record_found hcode (hx.found hplain) hv ?_)
      rw [h₂.marks.size_eq, hsize]
      exact hid
    · cases heq
      exact hwalked.marks hv hid hplain hx

theorem typed_walked {info : InstanceInfo}
    (htypes : ∀ {type}, p.type? info.typeName = some type →
      Fits n type.body ∧ Completes p n onType type)
    (h : (walkModule p onType scope path (.typed info)).Ends s u s')
    (hsize : s.marks.entries.size = n) (hs : Informed p s) :
    Walked p n scope [.typed info] s s' := by
  simp only [walkModule, ends_bind] at h
  obtain ⟨_, s₁, hheader, h⟩ := h
  have h₁ := record_grows hheader
  have hsize₁ := h₁.marks.size_eq.trans hsize
  cases htype : p.type? info.typeName with
  | none =>
    simp only [htype] at h
    have h₂ := h₁.trans (passOnAll_grows h)
    refine ⟨h₂.toGrows, hs.of_eq h₂.typeUse_eq, fun hm => absurd hm.of_typed (by simp), ?_⟩
    intro access x v hv hid hplain hx
    rcases hx.of_one with (⟨type, hsome, -⟩ | ⟨-, m, hm, hlocal, hx⟩) | ⟨_, _, heq, -⟩
    · rw [htype] at hsome
      cases hsome
    · refine passOnAll_keeps hm (hsize₁ ▸ hid) (fun hone hlt => ?_) h
      exact passOn_unknown_has hone hlocal hx hplain hv hlt
    · cases heq
  | some type =>
    simp only [htype, ends_bind] at h
    obtain ⟨use, s₂, huse, _, s₃, hpass, hcheck⟩ := h
    obtain ⟨hfits, hcompletes⟩ := htypes htype
    obtain ⟨hgrows, hinformed, hcomplete⟩ := typeUse_complete (Picture.type?_mem htype) hcompletes
      huse hsize₁ (hs.of_eq h₁.typeUse_eq)
    have h₄ := (passOnAll_grows hpass).trans (checkMappings_grows hcheck)
    have h₂ := h₁.toGrows.trans hgrows
    refine ⟨h₂.trans h₄.toGrows, hinformed.of_eq h₄.typeUse_eq,
      fun hm => absurd hm.of_typed (by simp), ?_⟩
    intro access x v hv hid hplain hx
    rcases hx.of_one with (⟨other, hsome, m, hm, w, hw, hconnects, huses⟩ | ⟨hnone, -⟩) |
      ⟨_, _, heq, -⟩
    · rw [htype] at hsome
      cases hsome
      refine (checkMappings_grows hcheck).marks.keeps v access ?_
      refine passOnAll_keeps hm ?_ (fun hone hlt => ?_) hpass
      · rw [h₂.marks.size_eq, hsize]
        exact hid
      · exact passOn_has hone hconnects (hfits.plain w (List.mem_append_left _ hw))
          (hcomplete access w hw huses) hplain hv hlt
    · rw [htype] at hnone
      cases hnone
    · cases heq

theorem stray_walked {value : Value}
    (h : (walkModule p onType scope path (.stray value)).Ends s u s') (hs : Informed p s) :
    Walked p n scope [.stray value] s s' := by
  simp only [walkModule, ends_bind, ends_ofFault] at h
  obtain ⟨invocation, _, ⟨-, rfl⟩, _, s₁, hheader, h⟩ := h
  split at h
  · exact absurd h ends_throw
  · obtain ⟨-, rfl⟩ := ends_pure.mp h
    have h₁ := record_grows hheader
    exact ⟨h₁.toGrows, hs.of_eq h₁.typeUse_eq, fun hm => absurd hm.of_stray (by simp),
      fun _ _ _ hx => by rcases hx.of_one with hx | ⟨_, _, heq, -⟩ <;> contradiction⟩

theorem walks_nil : Walks p n onType [] := by
  intro scope path s u s' h _ hs
  simp only [walkModules, ends_pure] at h
  obtain ⟨-, rfl⟩ := h
  exact ⟨.refl _, hs, fun hm => absurd hm Module.Inside.not_nil,
    fun _ _ _ hx => absurd hx Uses.of_nil⟩

theorem walks_cons {first : Module} {rest : List Module}
    (hfirst : ∀ {scope path s u s'}, (walkModule p onType scope path first).Ends s u s' →
      s.marks.entries.size = n → Informed p s → Walked p n scope [first] s s')
    (hrest : Walks p n onType rest) : Walks p n onType (first :: rest) := by
  intro scope path s u s' h hsize hs
  simp only [walkModules, ends_bind] at h
  obtain ⟨_, t, hone, hothers⟩ := h
  have hone := hfirst hone hsize hs
  have hothers := hrest hothers (hone.grows.marks.size_eq.trans hsize) hone.informed
  refine ⟨hone.grows.trans hothers.grows, hothers.informed, ?_, ?_⟩
  · intro info inner hm
    rcases hm.of_cons with hm | hm
    · exact (hone.inside hm).grows hothers.grows
    · exact hothers.inside hm
  · intro access x v hv hid hplain hx
    rcases hx.cons with hx | hx
    · exact hothers.grows.marks.keeps v access (hone.marks hv hid hplain hx)
    · exact hothers.marks hv hid hplain hx

theorem Ready.of_inside {modules : List Module} (h : Ready p n onType modules)
    (hsub : ∀ {m}, Module.Inside inner m → Module.Inside modules m) : Ready p n onType inner :=
  ⟨fun hm => h.types (hsub hm), fun hm => h.scopes (hsub hm)⟩

/-- Every list of modules that is ready is walked so, whatever is nested in it. -/
theorem Ready.walks : ∀ {modules : List Module}, Ready p n onType modules →
    Walks p n onType modules
  | [], _ => walks_nil
  | .single _ _ :: _, h =>
    walks_cons
      (single_walked (h.scopes (.here List.mem_cons_self))
        (h.of_inside (.single List.mem_cons_self)).walks)
      (h.of_inside .cons).walks
  | .frame _ _ :: _, h =>
    walks_cons (frame_walked (h.of_inside (.framed List.mem_cons_self)).walks)
      (h.of_inside .cons).walks
  | .typed _ :: _, h =>
    walks_cons (typed_walked (h.types (.here List.mem_cons_self))) (h.of_inside .cons).walks
  | .stray _ :: _, h =>
    walks_cons (fun hone _ hs => stray_walked hone hs) (h.of_inside .cons).walks

end Modules

section Types

variable {p : Picture} {n : Nat}

/-- All variables of the program are among the first `n` and have no dots in their names. -/
def Bounded (p : Picture) (n : Nat) : Prop :=
  ∀ ⦃body⦄, p.HasBody body → ∀ v ∈ body.scope, '.' ∉ v.key.toList ∧ v.id < n

theorem Bounded.fits (hn : Bounded p n) (hp : p.Distinct) {body : Body} (hb : p.HasBody body) :
    Fits n body :=
  ⟨hp.scopes body hb, fun v hv => (hn hb v hv).1, fun v hv => (hn hb v hv).2⟩

variable {depth : Nat} {type : TypeDef}

/-- One more level of nesting: a type is walked completely if the types of its instances are. -/
theorem walkType_succ_completes (hp : p.Distinct) (hn : Bounded p n) (ht : type ∈ p.types)
    (hinner : ∀ {inner}, p.Instantiates type inner → Completes p n (walkType p depth) inner) :
    Completes p n (walkType p (depth + 1)) type := by
  intro path s u s' h hsize hs
  simp only [walkType, ends_bind, ends_modify] at h
  obtain ⟨_, s₁, hdefinition, _, s₂, hcode, _, s₃, hmodules, _, s₄, hgroup, _, s₅, rfl, hown⟩ := h
  have hfits : Fits n type.body := hn.fits hp (.type ht)
  have hready : Ready p n (walkType p depth) type.submodules :=
    ⟨fun hm htype => ⟨hn.fits hp (.type (Picture.type?_mem htype)), hinner ⟨_, hm, htype⟩⟩,
      fun hm => hn.fits hp (.typeModule ht hm)⟩
  have h₁ := record_grows hdefinition
  have h₂ := h₁.trans (record_grows hcode)
  have hwalked := hready.walks hmodules (h₂.marks.size_eq.trans hsize) (hs.of_eq h₂.typeUse_eq)
  have h₄ := record_grows hgroup
  have h₆ := checkOwnMappings_grows hown
  have hmarked : Marked p type.body s₄ :=
    (Walked.marked hfits hcode (h₁.marks.size_eq.trans hsize) hwalked).grows h₄.toGrows
  refine ⟨?_, ?_, ?_, ParameterUse.ofMarks s₄.marks type.parameters, ?_⟩
  · exact ((h₂.toGrows.trans hwalked.grows).trans h₄.toGrows).remember.trans h₆.toGrows
  · refine Informed.of_eq ?_ h₆.typeUse_eq
    intro other hother use huse access v hv huses
    rcases List.mem_cons.mp huse with hnew | hold
    · have hkey : other.key = type.key := congrArg Prod.fst hnew
      obtain rfl := hp.eq_of_key hother ht hkey
      cases hnew
      exact ParameterUse.has_ofMarks hv (hmarked v (List.mem_append_left _ hv) huses)
    · exact hwalked.informed.of_eq h₄.typeUse_eq other hother use hold access v hv huses
  · exact fun access v hv huses => h₆.marks.keeps v access (hmarked v hv huses)
  · rw [h₆.typeUse_eq]
    exact List.mem_cons_self

/-- The types around a type that is being walked are different from each other and from it, so
that there are at most as many as the depth allows. -/
theorem walkType_completes_below (hp : p.Distinct) (hac : p.Acyclic) (hn : Bounded p n)
    {around : List TypeDef} (ht : type ∈ p.types) (hsub : around ⊆ p.types)
    (hnodup : around.Nodup)
    (habove : ∀ outer ∈ around, Relation.TransGen p.Instantiates outer type)
    (hdepth : p.types.length ≤ around.length + depth) : Completes p n (walkType p depth) type := by
  have hnew : type ∉ around := fun h => hac type (habove type h)
  have hnodup' : (type :: around).Nodup := List.nodup_cons.mpr ⟨hnew, hnodup⟩
  have hsub' : type :: around ⊆ p.types := List.cons_subset.mpr ⟨ht, hsub⟩
  induction depth generalizing around type with
  | zero =>
    have hlength := (hnodup'.subperm hsub').length_le
    simp only [List.length_cons] at hlength
    omega
  | succ depth ih =>
    refine walkType_succ_completes hp hn ht fun {inner} hinner => ?_
    have hinnerMem : inner ∈ p.types := by
      obtain ⟨info, -, htype⟩ := hinner
      exact Picture.type?_mem htype
    have habove' : ∀ outer ∈ type :: around, Relation.TransGen p.Instantiates outer inner := by
      intro outer houter
      rcases List.mem_cons.mp houter with rfl | houter
      · exact .single hinner
      · exact (habove outer houter).tail hinner
    have hinnerNew : inner ∉ type :: around := fun h => hac inner (habove' inner h)
    refine ih hinnerMem hsub' hnodup' habove' ?_ hinnerNew
      (List.nodup_cons.mpr ⟨hinnerNew, hnodup'⟩) (List.cons_subset.mpr ⟨hinnerMem, hsub'⟩)
    simp only [List.length_cons]
    omega

theorem walkType_completes (hp : p.Distinct) (hac : p.Acyclic) (hn : Bounded p n)
    (ht : type ∈ p.types) : Completes p n (walkType p p.types.length) type :=
  walkType_completes_below hp hac hn ht (List.nil_subset _) List.nodup_nil (by simp)
    (by simp)

end Types

end SattLine.Usage
