import SattLine.Proofs.Steps
import SattLine.Proofs.Syntax.Lexeme

/-!
The stack machine of the parser. A production is reduced only where its symbols stand on the stack,
so every derivation on the stack derives what it is one of. Main statement: what the machine answers
with is a derivation of a program.
-/

namespace SattLine.Syntax

open Grammar (Table Symbol Production)

/-- `Derives table derivations symbols`: the derivations are those of the symbols. The start
production is never part of one. -/
inductive Derives (table : Table) : List Derivation → List Symbol → Prop
  | nil : Derives table [] []
  | leaf {token : Token} {kept : Bool} {rest : List Derivation} {symbols : List Symbol}
      (hlexed : token.Lexed) (h : Derives table rest symbols) :
      Derives table (.leaf token :: rest) (.terminal token.kind kept :: symbols)
  | node {number : Nat} {production : Production} {children rest : List Derivation}
      {symbols : List Symbol} (hfound : table.productions[number + 1]? = some production)
      (hchildren : Derives table children production.right) (h : Derives table rest symbols) :
      Derives table (.node (number + 1) children :: rest) (production.left :: symbols)

/-- The derivation derives every symbol that it is one of. -/
def Derivation.Sound (table : Table) (derivation : Derivation) : Prop :=
  ∀ {symbol rest symbols}, derivation.isOf table symbol = true → Derives table rest symbols →
    Derives table (derivation :: rest) (symbol :: symbols)

section Sound

variable {table : Table} {derivations : List Derivation} {symbols : List Symbol}

theorem sound_leaf {token : Token} (h : token.Lexed) : (Derivation.leaf token).Sound table := by
  intro symbol rest symbols hof hrest
  cases symbol with
  | terminal name kept =>
    obtain rfl : token.kind = name := by simpa [Derivation.isOf] using hof
    exact .leaf h hrest
  | rule name | repetition number => cases hof

theorem derives_of_areOf (h : ∀ derivation ∈ derivations, derivation.Sound table)
    (hof : areOf table derivations symbols = true) : Derives table derivations symbols := by
  induction derivations generalizing symbols with
  | nil =>
    cases symbols with
    | nil => exact .nil
    | cons symbol more => cases hof
  | cons derivation rest ih =>
    cases symbols with
    | nil => cases hof
    | cons symbol more =>
      obtain ⟨hderivation, hothers⟩ := List.forall_mem_cons.mp h
      simp only [areOf, Bool.and_eq_true] at hof
      exact hderivation hof.1 (ih hothers hof.2)

theorem sound_node {number : Nat} {production : Production}
    (hfound : table.productions[number]? = some production)
    (h : ∀ derivation ∈ derivations, derivation.Sound table)
    (hof : areOf table derivations production.right = true) :
    (Derivation.node number derivations).Sound table := by
  intro symbol rest symbols hsymbol hrest
  cases number with
  | zero => cases hsymbol
  | succ number =>
    obtain rfl : production.left = symbol := by simpa [Derivation.isOf, hfound] using hsymbol
    exact .node hfound (derives_of_areOf h hof) hrest

end Sound

namespace Language

variable {language : Language} {stack : Stack} {fuel number : Nat} {lexeme : Lexeme}
  {derivation : Derivation}

/-- Every derivation on the stack is sound. -/
def Holds (language : Language) (stack : Stack) : Prop :=
  ∀ frame ∈ stack, frame.derivation.Sound language.table

theorem Holds.reduce? {reduced : Stack} (h : language.Holds stack)
    (hreduce : language.reduce? stack number = some reduced) : language.Holds reduced := by
  obtain ⟨production, hfound, hreduce⟩ := Option.bind_eq_some_iff.mp hreduce
  obtain ⟨left, -, hreduce⟩ := Option.bind_eq_some_iff.mp hreduce
  obtain ⟨state, -, hreduce⟩ := Option.bind_eq_some_iff.mp hreduce
  split at hreduce
  case isFalse => cases hreduce
  case isTrue hof =>
    cases hreduce
    refine List.forall_mem_cons.mpr ⟨sound_node hfound ?_ hof, ?_⟩
    · intro child hchild
      obtain ⟨frame, hframe, rfl⟩ := List.mem_map.mp hchild
      exact h frame (List.mem_of_mem_take (List.mem_reverse.mp hframe))
    · intro frame hframe
      exact h frame (List.mem_of_mem_drop hframe)

theorem Holds.feed (h : language.Holds stack) (hlexed : lexeme.token.Lexed) {fed : Stack}
    (hfeed : language.feed fuel lexeme stack = .ok fed) : language.Holds fed := by
  induction fuel generalizing stack with
  | zero => cases hfeed
  | succ fuel ih =>
    rw [Language.feed] at hfeed
    split at hfeed
    · cases hfeed
    · cases hfeed
      exact List.forall_mem_cons.mpr ⟨sound_leaf hlexed, h⟩
    · split at hfeed
      · cases hfeed
      · next reduced hreduce => exact ih (h.reduce? hreduce) hfeed

theorem Holds.finish (h : language.Holds stack)
    (hfinish : language.finish fuel lexeme stack = .ok derivation) :
    Derives language.table [derivation] [.rule "start"] := by
  induction fuel generalizing stack with
  | zero => cases hfinish
  | succ fuel ih =>
    rw [Language.finish] at hfinish
    split at hfinish
    · split at hfinish
      · cases hfinish
      · next reduced hreduce =>
        have hreduced := h.reduce? hreduce
        split at hfinish
        · split at hfinish
          · next hstart =>
            cases hfinish
            exact hreduced _ List.mem_cons_self hstart .nil
          · exact ih hreduced hfinish
        · exact ih hreduced hfinish
    · cases hfinish

theorem Holds.run (hlexicons : ∀ state, (language.lexicons.getD state fullLexicon).Sound)
    {cursor : Cursor} {last : Option Token} (h : language.Holds stack)
    (hrun : language.run fuel cursor last stack = .ok derivation) :
    Derives language.table [derivation] [.rule "start"] := by
  induction fuel generalizing cursor last stack with
  | zero => cases hrun
  | succ fuel ih =>
    simp only [Language.run] at hrun
    split at hrun
    · exact h.finish hrun
    · obtain ⟨⟨lexeme, after⟩, hread, hrun⟩ := bind_eq_ok.mp hrun
      obtain ⟨fed, hfeed, hrun⟩ := bind_eq_ok.mp hrun
      exact ih (h.feed ((hlexicons stack.state).read hread).lexed hfeed) hrun

end Language

end SattLine.Syntax
