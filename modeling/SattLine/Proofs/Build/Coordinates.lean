import SattLine.Proofs.Build.Declarations

/-!
Places as they are written and as they are built. Main statement: a place has the first numbers
among its coordinates and the literals that are connected behind them, so it has its coordinates
just as they are written if no number is connected in front of the last one.
-/

namespace SattLine.Build

open List
open Number (Double readDouble? readInt?)
open Syntax (Tree Token IsOf lexemes word)

/-- The number that a literal stands for. -/
def literalNumber? (lexeme : Token) : Option Double :=
  match lexeme.kind with
  | "REAL" => readDouble? lexeme.text
  | "SIGNED_INT" => (readInt? lexeme.text).bind Double.ofInt?
  | "BOOL" => some (Double.ofRatio false (if lexeme.text == "True" then 1 else 0) 1)
  | _ => none

/-- What a part of a place is counted for: a coordinate, or the literal of a connection. -/
def counted : Tree → List Double
  | .leaf lexeme => (literalNumber? lexeme).toList
  | .node "coord_invar_tail" [_, .node _ [.node "value" [.leaf lexeme]]] =>
    (literalNumber? lexeme).toList
  | .node _ _ => []

/-- A coordinate with what stands behind it. -/
structure Coordinate where
  lexeme : Token
  number : Double
  tails : List Tree
  isReal : lexeme.kind = "REAL"
  isNumber : readDouble? lexeme.text = some number
  areTails : ∀ tail ∈ tails, IsOf "coord_tail" tail

namespace Coordinate

def trees (c : Coordinate) : List Tree :=
  .leaf c.lexeme :: c.tails

/-- Nothing that counts as a number stands behind the coordinate. -/
def IsAlone (c : Coordinate) : Prop :=
  ∀ tail ∈ c.tails, counted tail = []

variable {c : Coordinate} {cs : List Coordinate}

theorem counted_trees (c : Coordinate) :
    c.trees.flatMap counted = c.number :: c.tails.flatMap counted := by
  have hone : counted (.leaf c.lexeme) = [c.number] := by
    rw [counted, literalNumber?, c.isReal]
    exact congrArg Option.toList c.isNumber
  rw [trees, flatMap_cons, hone, singleton_append]

/-- If nothing is counted in front of the last coordinate, the coordinates come first. -/
theorem take_counted (h : ∀ c ∈ cs.dropLast, c.IsAlone) :
    ((cs.flatMap trees).flatMap counted).take cs.length = cs.map number := by
  induction cs with
  | nil => rfl
  | cons c rest ih =>
    rw [flatMap_cons, flatMap_append, counted_trees, length_cons, map_cons, cons_append, take_succ_cons]
    cases rest with
    | nil => simp
    | cons next rest =>
      rw [dropLast_cons_of_ne_nil (by simp), forall_mem_cons] at h
      rw [flatMap_eq_nil_iff.mpr h.1, nil_append, ih h.2]

end Coordinate

section Counting

variable {tree : Tree} {inner : List Tree} {v : Value} {items : List Value} {found : List Double}

/-- A value is read as the numbers that its tree is counted for. -/
def IsCounted (tree : Tree) (v : Value) : Prop :=
  ∀ found, reals [v] = .ok found → found = counted tree

theorem reals_cons (h : reals (v :: items) = .ok found) :
    ∃ first others, reals [v] = .ok first ∧ reals items = .ok others ∧ found = first ++ others := by
  unfold reals at h ⊢
  by_cases hv : v.isNumber = true
  · rw [filter_cons_of_pos hv, mapM_cons] at h
    obtain ⟨x, hx, h⟩ := bind_eq_ok.mp h
    obtain ⟨others, hothers, h⟩ := bind_eq_ok.mp h
    cases h
    refine ⟨[x], others, ?_, hothers, rfl⟩
    rw [filter_cons_of_pos hv, filter_nil, mapM_cons, hx]
    rfl
  · rw [filter_cons_of_neg hv] at h
    refine ⟨[], found, ?_, h, rfl⟩
    rw [filter_cons_of_neg hv]
    rfl

theorem reals_eq_counted (h : Forall₂ IsCounted inner items) (hfound : reals items = .ok found) :
    found = inner.flatMap counted := by
  induction h generalizing found with
  | nil =>
    cases hfound
    rfl
  | cons hfirst _ ih =>
    obtain ⟨first, others, hone, hothers, rfl⟩ := reals_cons hfound
    rw [hfirst first hone, ih hothers, flatMap_cons]

theorem isCounted_of_not_number (hv : v.isNumber = false) (htree : counted tree = []) :
    IsCounted tree v := by
  intro found hfound
  rw [reals, filter_cons_of_neg (by simp [hv])] at hfound
  cases hfound
  exact htree.symm

theorem isCounted_of_number (hv : v.isNumber = true)
    (htree : ∀ x, v.toDouble = .ok x → counted tree = [x]) : IsCounted tree v := by
  intro found hfound
  rw [reals, filter_cons_of_pos hv, filter_nil, mapM_cons] at hfound
  obtain ⟨x, hx, hfound⟩ := bind_eq_ok.mp hfound
  cases hfound
  exact (htree x hx).symm

variable {lexeme : Token} {tree : Tree} {rest : List Grammar.Part} {count : Nat}

theorem readDouble_of_leaf (hkind : lexeme.kind = "REAL") (hv : valueOf (.leaf lexeme) = .ok v) :
    ∃ x, v = .real x ∧ readDouble? lexeme.text = some x := by
  obtain ⟨x, rfl⟩ := real_of_leaf hkind hv
  refine ⟨x, rfl, ?_⟩
  rw [valueOf, hkind] at hv
  cases hread : readDouble? lexeme.text with
  | none =>
    simp only [lexemeValue?, hread] at hv
    cases hv
  | some y =>
    simp only [lexemeValue?, hread] at hv
    cases hv
    rfl

theorem isCounted_of_literal (hkind : lexeme.kind ∈ ["BOOL", "REAL", "STRING", "SIGNED_INT"])
    (hv : valueOf (.leaf lexeme) = .ok v) (htree : counted tree = (literalNumber? lexeme).toList) :
    IsCounted tree v := by
  rw [literalNumber?] at htree
  simp only [mem_cons, not_mem_nil, or_false] at hkind
  rcases hkind with hkind | hkind | hkind | hkind
  all_goals simp only [hkind] at htree
  · rw [valueOf, hkind] at hv
    cases hv
    refine isCounted_of_number rfl fun x hx => ?_
    cases hx
    exact htree
  · obtain ⟨x, rfl, hread⟩ := readDouble_of_leaf hkind hv
    refine isCounted_of_number rfl fun y hy => ?_
    cases hy
    rw [htree, hread, Option.toList_some]
  · cases text_of_string (.inl hkind) hv
    exact isCounted_of_not_number rfl htree
  · obtain ⟨n, rfl, hn⟩ := readInt_of_leaf hkind hv
    refine isCounted_of_number rfl fun x hx => ?_
    rw [htree, hn, Option.bind_some]
    rw [Value.toDouble] at hx
    split at hx <;> cases hx
    rename_i hx
    rw [hx, Option.toList_some]

theorem Formed.value (h : Formed "value" tree v) :
    ∃ lexeme, tree = .node "value" [.leaf lexeme] ∧
      lexeme.kind ∈ ["BOOL", "REAL", "STRING", "SIGNED_INT"] ∧ valueOf (.leaf lexeme) = .ok v := by
  obtain ⟨_, hrow, _, _, rfl, hparts, hmade⟩ := h.parts (by repeat constructor)
  obtain ⟨lexeme, w, rfl, rfl, hkind, hw⟩ :=
    hparts.of_kinds ["BOOL", "REAL", "STRING", "SIGNED_INT"] hrow
  rw [constructed_of_mem (mem_constructions (by repeat constructor) : _ ∈ constructions),
    literal_of_isLiteral (isLiteral_of_leaf hkind hw)] at hmade
  cases hmade
  exact ⟨lexeme, rfl, hkind, hw⟩

theorem Formed.connected (h : Formed "connected_variable" tree v) :
    ∃ source, tree = .node "connected_variable" [source] ∧ v.isToken = false ∧
      (Formed "value" source v ∨ Formed "variable_name" source v) := by
  obtain ⟨_, hrow, _, _, rfl, hparts, hmade⟩ := h.parts (by repeat constructor)
  rw [constructed_of_mem (mem_constructions (by repeat constructor) : _ ∈ constructions)] at hmade
  rcases mem_pair.mp hrow with rfl | rfl
  all_goals
    obtain ⟨source, w, rfl, rfl, hw⟩ := hparts.of_lone
  · have hform : IsLiteral w := hw.hasForm (by decide)
    cases (firstValue_single _ hform.operand.isToken).symm.trans hmade
    exact ⟨source, rfl, hform.operand.isToken, .inl hw⟩
  · have hform : IsReference w := hw.hasForm (by decide)
    cases (firstValue_single _ hform.operand.isToken).symm.trans hmade
    exact ⟨source, rfl, hform.operand.isToken, .inr hw⟩

/-- A connection behind a coordinate is counted for its literal. -/
theorem Formed.connection (h : Formed "coord_invar_tail" tree v) : IsCounted tree v := by
  obtain ⟨_, _, rfl, hparts, hmade⟩ :=
    h.only (by repeat constructor) (by repeat constructor)
  obtain ⟨lexeme, _, _, rfl, rfl, hkind, hrest⟩ :=
    hparts.of_mark.of_keywords ["INVAR_PREFIX", "OUTVAR_PREFIX"] (by repeat constructor)
  obtain ⟨_, w, rfl, rfl, hw⟩ := hrest.of_lone
  obtain ⟨source, rfl, htoken, hsource⟩ := hw.connected
  cases (firstValue_keyword _ _ _ htoken).symm.trans hmade
  rcases hsource with hsource | hsource
  · obtain ⟨literal, rfl, hkind, hv⟩ := hsource.value
    exact isCounted_of_literal hkind hv rfl
  · obtain ⟨_, _, inner, _, rfl, -⟩ := hsource.parts (by repeat constructor)
    obtain ⟨_, _, rfl, -⟩ : IsReference v := hsource.hasForm (by decide)
    exact isCounted_of_not_number rfl (by simp [counted])

/-- A tree of a rule that gives way to one of several others. -/
theorem Formed.of_collapsing {name label : String} (h : Formed name tree v) (names : List String)
    (hrule : ⟨name, .collapsing label, names.map fun name => [.rule name]⟩ ∈ Grammar.rules) :
    ∃ name ∈ names, Formed name tree v := by
  obtain ⟨_, _, _, hfound, hrow, hforms, hleave⟩ := h.1.parts
  cases (Syntax.ruleNamed?_eq_some_iff.mpr ⟨hrule, rfl⟩).symm.trans hfound
  obtain ⟨chosen, hchosen, rfl⟩ := mem_map.mp hrow
  cases hforms with
  | rule hrule hrow hinner hrest =>
    cases hrest
    obtain ⟨only, honly, -⟩ := Syntax.leave_eq hrule _
    rw [honly] at hleave
    cases hleave
    exact ⟨chosen, hchosen, .of_row hrule hrow hinner honly, h.2⟩

theorem Formed.tail (h : Formed "coord_tail" tree v) : IsCounted tree v := by
  obtain ⟨name, hname, hv⟩ :=
    h.of_collapsing ["coord_invar_tail", "coord_clippingbounds"] (by repeat constructor)
  rcases mem_pair.mp hname with rfl | rfl
  · exact hv.connection
  · obtain ⟨_, _, _, _, rfl, -, hmade⟩ := hv.parts (by repeat constructor)
    rw [constructed_of_mem (mem_constructions (by repeat constructor) : _ ∈ constructions)] at hmade
    cases hmade
    exact isCounted_of_not_number rfl (by simp [counted])

theorem Builds.of_coordinate
    (h : Builds Formed (.token "REAL" :: .many [[.rule "coord_tail"]] :: rest) inner items) :
    ∃ (c : Coordinate) (values : List Value) (others : List Tree) (following : List Value),
      inner = c.trees ++ others ∧ items = values ++ following ∧ Forall₂ IsCounted c.trees values ∧
        Builds Formed rest others following := by
  obtain ⟨lexeme, _, _, _, rfl, rfl, hkind, hv, hmany⟩ := h.of_token
  obtain ⟨tails, values, others, following, rfl, rfl, hrounds, hrest⟩ := hmany.of_many
  obtain ⟨same, hsame, hcounted⟩ := hrounds.exists_map id
    (fun tail v => IsOf "coord_tail" tail ∧ IsCounted tail v) fun _ hrow _ _ hround => by
      cases mem_singleton.mp hrow
      obtain ⟨tail, v, rfl, rfl, hv⟩ := hround.of_lone
      exact ⟨tail, v, rfl, rfl, hv.1, hv.tail⟩
  obtain ⟨hare, hcounted⟩ := (forall₂_and_left _ _).mp hcounted
  obtain ⟨x, rfl, hread⟩ := readDouble_of_leaf hkind hv
  obtain rfl : same = tails := by rw [hsame, map_id]
  exact ⟨⟨lexeme, x, same, hkind, hread, hare⟩, .real x :: values, others, following, rfl, rfl,
    .cons (isCounted_of_literal (by simp [hkind]) hv rfl) hcounted, hrest⟩

/-- The rows of as many coordinates, with marks between them. -/
def coordinateRow : Nat → List Grammar.Part
  | 0 => []
  | 1 => [.token "REAL", .many [[.rule "coord_tail"]]]
  | n + 2 => .token "REAL" :: .many [[.rule "coord_tail"]] :: .mark "COMMA" :: coordinateRow (n + 1)

theorem Builds.of_coordinates (h : Builds Formed (coordinateRow count ++ rest) inner items) :
    ∃ (cs : List Coordinate) (values : List Value) (others : List Tree) (following : List Value),
      cs.length = count ∧ inner = cs.flatMap Coordinate.trees ++ others ∧
        items = values ++ following ∧ Forall₂ IsCounted (cs.flatMap Coordinate.trees) values ∧
          Builds Formed rest others following := by
  induction count using coordinateRow.induct generalizing inner items with
  | case1 => exact ⟨[], [], inner, items, rfl, rfl, rfl, .nil, h⟩
  | case2 =>
    obtain ⟨c, values, others, following, rfl, rfl, hcounted, hrest⟩ := h.of_coordinate
    exact ⟨[c], values, others, following, rfl, by simp, rfl, by simpa using hcounted, hrest⟩
  | case3 n ih =>
    obtain ⟨c, first, _, _, rfl, rfl, hfirst, hrest⟩ := h.of_coordinate
    obtain ⟨cs, values, others, following, hlength, rfl, rfl, hcounted, hrest⟩ := ih hrest.of_mark
    exact ⟨c :: cs, first ++ values, others, following, by simp [hlength], by simp, by simp,
      by simpa using rel_append hfirst hcounted, hrest⟩

/-- A place is made of the first numbers of its parts. -/
theorem Builds.place {make : List Value → Result Value}
    (h : Builds Formed (coordinateRow count ++ rest) inner items) (hmakes : Makes make count)
    (hrest : ∀ others following, Builds Formed rest others following → others = [] ∧ following = [])
    (hlong : count ≤ (coordinateRow count ++ rest).countP isReal) (hv : make items = .ok v) :
    ∃ cs : List Coordinate, cs.length = count ∧ inner = cs.flatMap Coordinate.trees ∧
      v = .tuple (((inner.flatMap counted).take count).map .real) := by
  obtain ⟨found, hfound, -, rfl⟩ := hmakes.of_eq_ok (Nat.le_trans hlong h.countP_le) hv
  obtain ⟨cs, values, others, following, hlength, rfl, rfl, hcounted, hnil⟩ := h.of_coordinates
  obtain ⟨rfl, rfl⟩ := hrest others following hnil
  rw [append_nil] at hfound ⊢
  exact ⟨cs, hlength, rfl, by rw [reals_eq_counted hcounted hfound]⟩

end Counting

/-- The rules of places and the numbers of their coordinates. -/
def placeCounts : List (String × Nat) :=
  [("coordinates", 2), ("invoke_coord", 5)]

theorem Formed.place {name : String} {count : Nat} (hname : (name, count) ∈ placeCounts)
    {tree : Tree} {v : Value} (h : Formed name tree v) :
    ∃ cs : List Coordinate, cs.length = count ∧ tree = .node name (cs.flatMap Coordinate.trees) ∧
      v = .tuple ((((cs.flatMap Coordinate.trees).flatMap counted).take count).map .real) := by
  simp only [placeCounts, mem_cons, not_mem_nil, or_false, Prod.mk.injEq] at hname
  rcases hname with ⟨rfl, rfl⟩ | ⟨rfl, rfl⟩
  · obtain ⟨_, hrow, _, items, rfl, hparts, hmade⟩ := h.parts (by repeat constructor)
    cases mem_singleton.mp hrow
    rw [constructed_of_mem (by repeat constructor : ("coordinates", coordinates) ∈ constructions)]
      at hmade
    obtain ⟨cs, hlength, rfl, hv⟩ := hparts.of_mark.place coordinates_makes
      (fun _ _ h => h.of_mark.of_nil) (by decide) hmade
    exact ⟨cs, hlength, rfl, hv⟩
  · obtain ⟨_, hrow, _, items, rfl, hparts, hmade⟩ := h.parts (by repeat constructor)
    cases mem_singleton.mp hrow
    rw [constructed_of_mem (by repeat constructor : ("invoke_coord", invokeCoord) ∈ constructions)]
      at hmade
    replace hparts : Builds Formed (coordinateRow 5 ++ []) _ items := hparts
    obtain ⟨cs, hlength, rfl, hv⟩ := hparts.place invokeCoord_makes
      (fun _ _ h => h.of_nil) (by decide) hmade
    exact ⟨cs, hlength, rfl, hv⟩

/-- A place has a value just if its tree can be constructed. The value has as many numbers as the
place has coordinates: the first ones among the coordinates and the literals that are connected
behind them. If no number is connected in front of the last coordinate, these are the coordinates
in order. -/
theorem place_numbers {name : String} {count : Nat} (hname : (name, count) ∈ placeCounts)
    {tree : Tree} (h : IsOf name tree) (hlexed : ∀ lexeme ∈ lexemes tree, lexeme.Lexed) :
    ((∃ v, valueOf tree = .ok v) ↔ Constructible tree) ∧
      ∀ v, valueOf tree = .ok v → ∃ cs : List Coordinate, cs.length = count ∧
        tree = .node name (cs.flatMap Coordinate.trees) ∧
        v = .tuple ((((cs.flatMap Coordinate.trees).flatMap counted).take count).map .real) ∧
        ((∀ c ∈ cs.dropLast, c.IsAlone) → v = .tuple (cs.map fun c => .real c.number)) := by
  refine ⟨valueOf_returns_iff h hlexed, fun v hv => ?_⟩
  obtain ⟨cs, hlength, htree, hnumbers⟩ := Formed.place hname ⟨h, hv⟩
  refine ⟨cs, hlength, htree, hnumbers, fun halone => ?_⟩
  rw [hnumbers, ← hlength, Coordinate.take_counted halone, map_map]
  rfl

/-! A whole number that is connected behind a coordinate. -/

/-- The connection of a number. -/
def fiveTail : Tree :=
  .node "coord_invar_tail" [word "INVAR_PREFIX" "InVar_",
    .node "connected_variable" [.node "value" [word "SIGNED_INT" "5"]]]

/-- The coordinates `1.0` and `2.0` with connections behind them. -/
def connectedPlace (first second : List Tree) : Tree :=
  .node "coordinates" (word "REAL" "1.0" :: first ++ word "REAL" "2.0" :: second)

/-- Behind the last coordinate the number is not counted. -/
theorem connected_last_ignored : ∃ cs : List Coordinate,
    connectedPlace [] [fiveTail] = .node "coordinates" (cs.flatMap Coordinate.trees) ∧
      valueOf (connectedPlace [] [fiveTail]) = .ok (.tuple (cs.map fun c => .real c.number)) := by
  have htree : IsOf "coordinates" (connectedPlace [] [fiveTail]) :=
    Syntax.isOf_of_behind 30 (by decide +kernel)
  have hlexed : ∀ lexeme ∈ lexemes (connectedPlace [] [fiveTail]), lexeme.Lexed :=
    Syntax.lexed_of_isWhole (by decide +kernel)
  obtain ⟨cs, hlength, hcs, -, hnumbers⟩ := (place_numbers (.head _) htree hlexed).2 _ rfl
  refine ⟨cs, hcs, (congrArg Except.ok (hnumbers ?_)).symm ▸ rfl⟩
  obtain ⟨c, d, rfl⟩ := length_eq_two.mp hlength
  refine forall_mem_singleton.mpr ?_
  rcases htails : c.tails with _ | ⟨tail, _ | ⟨other, rest⟩⟩
  · simp [Coordinate.IsAlone, htails]
  · simp [connectedPlace, Coordinate.trees, htails, fiveTail] at hcs
  · simp [connectedPlace, Coordinate.trees, htails] at hcs

/-- In front of it the number is taken for a coordinate. -/
theorem connected_number_counted : ∃ x y,
    Number.readDouble? "1.0" = some x ∧ Number.Double.ofInt? 5 = some y ∧
      valueOf (connectedPlace [fiveTail] []) = .ok (.tuple [.real x, .real y]) :=
  ⟨_, _, rfl, rfl, rfl⟩

end SattLine.Build
