import SattLine.Proofs.Toml.Quoted
import SattLine.Proofs.Toml.Settled

/-!
Documents of lines: notes, and entries with a truth value, a text or a list of texts. Texts are
written between quote marks as they are. Main statement: the document is read as the entries of its
lines exactly if all of its texts are plain.
-/

namespace SattLine.Toml

open List

/-- What a line enters. -/
inductive Item where
  | flag (b : Bool)
  | text (s : String)
  | list (texts : List String)

namespace Item

def value : Item → Value
  | .flag b => .bool b
  | .text s => .text s
  | .list texts => .list (texts.map .text)

def texts : Item → List String
  | .flag _ => []
  | .text s => [s]
  | .list texts => texts

/-- The items of a list, each on a line of its own, and the closing bracket. -/
def linesBefore (after : List Char) : List String → List Char
  | [] => ']' :: after
  | s :: rest => ' ' :: ' ' :: '"' :: (s.toList ++ '"' :: ',' :: '\n' :: linesBefore after rest)

/-- The item as it is written in front of the characters. An empty list has an empty line. -/
def charsBefore (after : List Char) : Item → List Char
  | .flag b => (if b then "true" else "false").toList ++ after
  | .text s => '"' :: (s.toList ++ '"' :: after)
  | .list [] => '[' :: '\n' :: '\n' :: ']' :: after
  | .list (s :: rest) => '[' :: '\n' :: linesBefore after (s :: rest)

end Item

section Values

variable {after left rest : List Char} {s : String} {steps : Nat}

theorem value?_text_iff (hs : '\n' ∉ s.toList) (hafter : Following after) :
    value? (steps + 1) ('"' :: (s.toList ++ '"' :: after)) = some (.text s, left) ↔
      Plain s.toList ∧ left = after := by
  have hiff := @string?_eq_self_iff s.toList after left hs hafter
  rw [String.ofList_toList] at hiff
  rw [← hiff, value?, Option.map_eq_some_iff]
  constructor
  · rintro ⟨⟨text, rest⟩, hstring, hvalue⟩
    cases hvalue
    exact hstring
  · intro hstring
    exact ⟨_, hstring, rfl⟩

/-- The first item of a list is the value at its front. -/
theorem value?_of_items? {chars : List Char} {item : Value} {others : List Value}
    (h : items? (steps + 1) chars = some (item :: others, left)) :
    ∃ rest, value? steps chars = some (item, rest) := by
  simp only [items?, Option.bind_eq_bind, Option.bind_eq_some_iff, Prod.exists] at h
  obtain ⟨first, rest, hfirst, filler, -, h⟩ := h
  refine ⟨rest, ?_⟩
  split at h
  · cases h
    exact hfirst
  · obtain ⟨filler, -, h⟩ := Option.bind_eq_some_iff.mp h
    split at h
    · cases h
      exact hfirst
    · obtain ⟨⟨others, left⟩, -, h⟩ := Option.bind_eq_some_iff.mp h
      cases h
      exact hfirst
  · cases h

/-- The text between its marks, and the lines of the list behind it. -/
def itemBefore (after : List Char) (s : String) (texts : List String) : List Char :=
  '"' :: (s.toList ++ '"' :: ',' :: '\n' :: Item.linesBefore after texts)

theorem skipFiller?_indented (t : String) (texts : List String) :
    skipFiller? false ('\n' :: Item.linesBefore after (t :: texts)) =
      some (itemBefore after t texts) :=
  rfl

theorem items?_last
    (h : value? steps (itemBefore after s []) = some (.text s, ',' :: '\n' :: ']' :: after)) :
    items? (steps + 1) (itemBefore after s []) = some ([.text s], after) := by
  simp [items?, h, skipFiller?, isBlankOrNewline, isBlank]

/-- Behind an item that is read as it is, the list goes on with the next one. -/
theorem items?_next {t : String} {texts : List String}
    (h : value? steps (itemBefore after s (t :: texts)) =
      some (.text s, ',' :: '\n' :: Item.linesBefore after (t :: texts))) :
    items? (steps + 1) (itemBefore after s (t :: texts)) =
      (items? steps (itemBefore after t texts)).map
        fun (others, left) => (.text s :: others, left) := by
  have hcomma (rest : List Char) : skipFiller? false (',' :: rest) = some (',' :: rest) := rfl
  simp only [items?, h, Option.bind_eq_bind, Option.bind_some, hcomma, skipFiller?_indented]
  cases hothers : items? steps (itemBefore after t texts) <;> simp_all [itemBefore]

theorem items?_texts_iff {texts : List String} (hs : ∀ t ∈ s :: texts, '\n' ∉ t.toList)
    (hsteps : texts.length + 1 < steps) :
    items? steps (itemBefore after s texts) =
        some ((s :: texts).map .text, left) ↔
      (∀ t ∈ s :: texts, Plain t.toList) ∧ left = after := by
  induction texts generalizing s steps with
  | nil =>
    obtain ⟨steps, rfl⟩ : ∃ n, steps = n + 2 := ⟨steps - 2, by simp at hsteps; omega⟩
    have hself (left : List Char) :=
      @value?_text_iff (',' :: '\n' :: Item.linesBefore after []) left s steps (hs s (by simp))
        .item
    constructor
    · intro h
      obtain ⟨rest, hrest⟩ := value?_of_items? h
      obtain ⟨hplain, rfl⟩ := (hself rest).mp hrest
      rw [items?_last hrest] at h
      cases h
      simpa using hplain
    · rintro ⟨hplain, rfl⟩
      exact items?_last ((hself _).mpr ⟨hplain s (by simp), rfl⟩)
  | cons t texts ih =>
    obtain ⟨steps, rfl⟩ : ∃ n, steps = n + 2 := ⟨steps - 2, by simp at hsteps; omega⟩
    have hself (left : List Char) :=
      @value?_text_iff (',' :: '\n' :: Item.linesBefore after (t :: texts)) left s steps
        (hs s (by simp)) .item
    have ih := @ih t (steps + 1) (fun u hu => hs u (mem_cons_of_mem _ hu))
      (by simp at hsteps; omega)
    constructor
    · intro h
      obtain ⟨rest, hrest⟩ := value?_of_items? h
      obtain ⟨hplain, rfl⟩ := (hself rest).mp hrest
      rw [items?_next hrest, Option.map_eq_some_iff] at h
      obtain ⟨⟨others, left⟩, hothers, h⟩ := h
      cases h
      obtain ⟨hall, rfl⟩ := ih.mp hothers
      exact ⟨forall_mem_cons.mpr ⟨hplain, hall⟩, rfl⟩
    · rintro ⟨hplain, rfl⟩
      obtain ⟨hfirst, hall⟩ := forall_mem_cons.mp hplain
      rw [items?_next ((hself _).mpr ⟨hfirst, rfl⟩)]
      simp only [ih.mpr ⟨hall, rfl⟩]
      rfl

/-- An item at the end of a line is read as itself exactly if its texts are plain. -/
theorem value?_eq_self_iff {item : Item} (hs : ∀ s ∈ item.texts, '\n' ∉ s.toList)
    (hsteps : item.texts.length + 1 < steps) (hquote : rest.head? ≠ some '"')
    (hslash : rest.head? ≠ some '\\') :
    value? steps (item.charsBefore ('\n' :: rest)) = some (item.value, left) ↔
      (∀ s ∈ item.texts, Plain s.toList) ∧ left = '\n' :: rest := by
  obtain ⟨steps, rfl⟩ : ∃ n, steps = n + 1 := ⟨steps - 1, by omega⟩
  match item with
  | .flag true | .flag false => simp [Item.charsBefore, Item.texts, Item.value, value?, eq_comm]
  | .text s =>
    have hself := @value?_text_iff ('\n' :: rest) left s steps (hs s (by simp [Item.texts]))
      (.line hquote hslash)
    simpa [Item.charsBefore, Item.texts, Item.value] using hself
  | .list [] =>
    have hread : value? (steps + 1) (Item.charsBefore ('\n' :: rest) (.list [])) =
        some (.list [], '\n' :: rest) := rfl
    rw [hread]
    simp [Item.texts, Item.value, eq_comm]
  | .list (s :: texts) =>
    have hread : value? (steps + 1) (Item.charsBefore ('\n' :: rest) (.list (s :: texts))) =
        (items? steps (itemBefore ('\n' :: rest) s texts)).map
          fun (items, left) => (.list items, left) := by
      rw [Item.charsBefore, value?, skipFiller?_indented]
      cases hitems : items? steps (itemBefore ('\n' :: rest) s texts) <;> simp_all [itemBefore]
    have hself := @items?_texts_iff ('\n' :: rest) left s steps texts hs
      (by simp only [Item.texts, length_cons] at hsteps; omega)
    rw [hread, Item.texts, ← hself, Option.map_eq_some_iff]
    constructor
    · rintro ⟨⟨items, left⟩, hitems, hlist⟩
      cases hlist
      exact hitems
    · intro hitems
      exact ⟨_, hitems, rfl⟩

end Values

section Entries

variable {p q : Progress} {name : String} {item : Item} {value : Value} {after : List Char}

/-- A name that is written without marks. -/
def IsName (name : String) : Prop :=
  name.toList ≠ [] ∧ ∀ c ∈ name.toList, isKeyChar c = true

instance (name : String) : Decidable (IsName name) :=
  @instDecidableAnd _ _ _ (List.decidableBAll _ _)

/-- No section has been opened, and the table of the document can be changed. -/
structure AtTop (p : Progress) : Prop where
  header : p.header = []
  isTable : IsTable p.data
  isOpen : [] ∉ p.closed

/-- A value is entered at the top. -/
def Progress.entered (p : Progress) (name : String) (value : Value) : Progress :=
  { p with
    data := p.data.put name value
    closed := if isNested value then [name] :: p.closed else p.closed }

theorem atTop_empty : AtTop {} :=
  ⟨rfl, ⟨[], [], rfl, rfl⟩, by simp⟩

theorem AtTop.entered (hp : AtTop p) (name : String) (value : Value) :
    AtTop (p.entered name value) := by
  refine ⟨hp.header, hp.isTable.put name value, ?_⟩
  have hopen := hp.isOpen
  simp only [Progress.entered]
  split <;> simp [hopen]

theorem AtTop.settled_entered (hp : AtTop p) (name : String) (value : Value) :
    Settled (p.entered name value) name value := by
  refine ⟨⟨hp.isTable.put name value, ?_⟩, fun hnested => ?_⟩
  · rw [Progress.entered, get?_put hp.isTable, if_pos rfl]
  · simp [Progress.entered, hnested]

theorem AtTop.enter? (hp : AtTop p) (hnew : p.data.get? name = none) :
    p.enter? [name] value = some (p.entered name value) := by
  obtain ⟨keys, values, hdata, -⟩ := hp.isTable
  have hopen : isClosed p.closed [] = false := by
    simp only [isClosed, any_eq_false, isPrefixOf_iff_prefix, prefix_nil]
    rintro path hmem rfl
    exact hp.isOpen hmem
  have hkey : p.data.hasKey name = false := by
    simp [Value.hasKey, hnew]
  rw [hdata] at hkey
  simp [Progress.enter?, Progress.entered, hp.header, hopen, hdata, atPath?, Toml.enter?, hkey]

theorem keyPart?_name (hname : IsName name) {rest : List Char}
    (hrest : ∀ c, rest.head? = some c → isKeyChar c = false) :
    keyPart? (name.toList ++ rest) = some (name, rest) := by
  obtain ⟨hne, hchars⟩ := hname
  have hnone : rest.takeWhile isKeyChar = [] ∧ rest.dropWhile isKeyChar = rest := by
    cases rest with
    | nil => simp
    | cons c rest => simp [hrest c rfl]
  have htake : (name.toList ++ rest).takeWhile isKeyChar = name.toList := by
    rw [takeWhile_append_of_pos hchars, hnone.1, append_nil]
  have hdrop : (name.toList ++ rest).dropWhile isKeyChar = rest := by
    rw [dropWhile_append_of_pos hchars, hnone.2]
  obtain ⟨c, cs, hcs⟩ := exists_cons_of_ne_nil hne
  have hc : isKeyChar c = true := hchars c (by simp [hcs])
  unfold keyPart?
  split
  · rename_i heq
    rw [hcs] at heq
    cases heq
    cases hc
  · rename_i heq
    rw [hcs] at heq
    cases heq
    cases hc
  · rw [htake, hdrop]
    split
    · contradiction
    · rw [String.ofList_toList]

theorem key?_name (hname : IsName name) (limit : Nat) (rest : List Char) :
    key? (limit + 1) (name.toList ++ ' ' :: '=' :: rest) = some ([name], '=' :: rest) := by
  have hpart := @keyPart?_name name hname (' ' :: '=' :: rest) (by simp; decide)
  simp [key?, hpart, skipBlanks, isBlank]

theorem charsBefore_skipBlanks (item : Item) :
    skipBlanks (item.charsBefore after) = item.charsBefore after := by
  match item with
  | .flag true | .flag false | .text s | .list [] | .list (s :: texts) => rfl

/-- The line of an entry. -/
def entryBefore (after : List Char) (name : String) (item : Item) : List Char :=
  name.toList ++ ' ' :: '=' :: ' ' :: item.charsBefore ('\n' :: after)

theorem statement?_entry (hname : IsName name) (p : Progress) :
    statement? p (skipBlanks (entryBefore after name item)) =
      (value? (2 * (entryBefore after name item).length) (item.charsBefore ('\n' :: after))).bind
        fun found => (p.enter? [name] found.1).map (·, found.2) := by
  obtain ⟨c, cs, hcs⟩ := exists_cons_of_ne_nil hname.1
  have hc : isKeyChar c = true := hname.2 c (by simp [hcs])
  have hne (d : Char) (hd : isKeyChar d = false) : c ≠ d := by
    rintro rfl
    rw [hc] at hd
    cases hd
  have hchars : entryBefore after name item =
      c :: (cs ++ ' ' :: '=' :: ' ' :: item.charsBefore ('\n' :: after)) := by
    simp [entryBefore, hcs]
  have hskip : skipBlanks (entryBefore after name item) = entryBefore after name item := by
    rw [hchars, skipBlanks, dropWhile_cons_of_neg]
    simp [isBlank, hne ' ' rfl, hne '\t' rfl]
  have hkey : key? (entryBefore after name item).length (entryBefore after name item) =
      some ([name], '=' :: ' ' :: item.charsBefore ('\n' :: after)) := by
    rw [hchars, length_cons, ← hchars]
    exact key?_name hname _ _
  have hblank : skipBlanks (' ' :: item.charsBefore ('\n' :: after)) =
      item.charsBefore ('\n' :: after) :=
    charsBefore_skipBlanks item
  rw [hskip]
  unfold statement?
  split
  · rename_i heq
    cases hchars.symm.trans heq
  · rename_i heq
    exact absurd (List.cons.inj (hchars.symm.trans heq)).1 (hne '[' rfl)
  · rename_i heq
    exact absurd (List.cons.inj (hchars.symm.trans heq)).1 (hne '[' rfl)
  · rename_i d _ _ _ heq
    cases hchars.symm.trans heq
    rw [if_neg (by simp [hne '\n' rfl, hne '#' rfl]), hkey]
    simp only [Option.bind_eq_bind, Option.bind_some, mark?, beq_self_eq_true, ↓reduceIte, hblank]
    congr 1
    funext ⟨value, rest⟩
    cases p.enter? [name] value <;> rfl

theorem Item.length_charsBefore (item : Item) (after : List Char) :
    item.texts.length + after.length ≤ (item.charsBefore after).length := by
  have hlines (texts : List String) :
      texts.length + after.length ≤ (Item.linesBefore after texts).length := by
    induction texts with
    | nil => simp [Item.linesBefore]
    | cons s texts ih =>
      simp only [Item.linesBefore, length_cons, length_append]
      omega
  match item with
  | .flag b => simp [Item.texts, Item.charsBefore]
  | .text s | .list [] => simp [Item.texts, Item.charsBefore]; omega
  | .list (s :: texts) =>
    have hle := hlines (s :: texts)
    simp [Item.texts, Item.charsBefore] at *
    omega

theorem length_lt_entryBefore (name : String) (item : Item) :
    item.texts.length + 1 < 2 * (entryBefore after name item).length := by
  have hle := item.length_charsBefore ('\n' :: after)
  simp only [entryBefore, length_append, length_cons] at *
  omega

/-- A line enters its item exactly if the texts of the item are plain; the document then goes on
with the next line. -/
theorem statements?_entry_iff {limit : Nat} (hp : AtTop p) (hname : IsName name)
    (hnew : p.data.get? name = none) (hs : ∀ s ∈ item.texts, '\n' ∉ s.toList)
    (hquote : after.head? ≠ some '"') (hslash : after.head? ≠ some '\\') :
    statements? (limit + 1) p (entryBefore after name item) = some q ∧
        q.data.get? name = some item.value ↔
      (∀ s ∈ item.texts, Plain s.toList) ∧
        statements? limit (p.entered name item.value) after = some q := by
  have hself (left : List Char) := @value?_eq_self_iff left after
    (2 * (entryBefore after name item).length) item hs (length_lt_entryBefore name item) hquote
    hslash
  have hline : skipComment? (skipBlanks ('\n' :: after)) = some ('\n' :: after) := rfl
  rw [statements?_eq_some_iff, statement?_entry hname]
  constructor
  · rintro ⟨⟨p', rest, hstatement, hrest⟩, hget⟩
    obtain ⟨⟨value, rest⟩, hvalue, hp'⟩ := Option.bind_eq_some_iff.mp hstatement
    rw [hp.enter? hnew, Option.map_some] at hp'
    cases hp'
    have hsettled := hp.settled_entered name value
    have hq : Settled q name value := by
      rcases hrest with ⟨-, rfl⟩ | ⟨left, -, hleft⟩
      · exact hsettled
      · exact hsettled.statements? hleft
    obtain rfl : value = item.value := Option.some.inj (hq.keeps.2.symm.trans hget)
    obtain ⟨hplain, rfl⟩ := (hself rest).mp hvalue
    rcases hrest with ⟨hskip, -⟩ | ⟨left, hskip, hleft⟩
    · cases hline.symm.trans hskip
    · cases hline.symm.trans hskip
      exact ⟨hplain, hleft⟩
  · rintro ⟨hplain, hrest⟩
    refine ⟨⟨p.entered name item.value, '\n' :: after, ?_, .inr ⟨after, hline, hrest⟩⟩, ?_⟩
    · rw [(hself _).mpr ⟨hplain, rfl⟩, Option.bind_some, hp.enter? hnew]
      rfl
    · exact ((hp.settled_entered name item.value).statements? hrest).keeps.2

end Entries

section Documents

/-- A line of a document. -/
inductive Line where
  | note (text : List Char)
  | entry (name : String) (item : Item)

namespace Line

def charsBefore (after : List Char) : Line → List Char
  | .note text => text ++ '\n' :: after
  | .entry name item => entryBefore after name item

def entry? : Line → Option (String × Item)
  | .note _ => none
  | .entry name item => some (name, item)

/-- A note is empty, or a sign and a text without control characters; an entry has a name that needs
no marks, and its texts stand on one line each. -/
def WellFormed : Line → Prop
  | .note text => text = [] ∨ ∃ comment, text = '#' :: comment ∧ comment.any isControl = false
  | .entry name item => IsName name ∧ ∀ s ∈ item.texts, '\n' ∉ s.toList

end Line

def document (lines : List Line) : List Char :=
  lines.foldr (fun line after => line.charsBefore after) []

def entries (lines : List Line) : List (String × Item) :=
  lines.filterMap Line.entry?

/-- All entries of the lines are entered at the top. -/
def Progress.enteredAll (p : Progress) (lines : List Line) : Progress :=
  (entries lines).foldl (fun p (name, item) => p.entered name item.value) p

@[simp] theorem document_cons (line : Line) (lines : List Line) :
    document (line :: lines) = line.charsBefore (document lines) :=
  rfl

@[simp] theorem entries_note (text : List Char) (lines : List Line) :
    entries (.note text :: lines) = entries lines :=
  rfl

@[simp] theorem entries_entry (name : String) (item : Item) (lines : List Line) :
    entries (.entry name item :: lines) = (name, item) :: entries lines :=
  rfl

variable {p q : Progress} {lines : List Line} {limit : Nat}

/-- No line begins with a mark or a backslash. -/
theorem head?_document (hlines : ∀ line ∈ lines, line.WellFormed) {c : Char}
    (hnewline : c ≠ '\n') (hnote : c ≠ '#') (hkey : isKeyChar c = false) :
    (document lines).head? ≠ some c := by
  cases lines with
  | nil => simp [document]
  | cons line lines =>
    have hline := hlines line mem_cons_self
    cases line with
    | note text =>
      rcases hline with rfl | ⟨comment, rfl, -⟩
      · simpa [Line.charsBefore] using hnewline.symm
      · simpa [Line.charsBefore] using hnote.symm
    | entry name item =>
      obtain ⟨first, others, hname⟩ := exists_cons_of_ne_nil hline.1.1
      have hfirst : isKeyChar first = true := hline.1.2 first (by simp [hname])
      simp only [document_cons, Line.charsBefore, entryBefore, hname, cons_append,
        List.head?_cons, ne_eq, Option.some.injEq]
      rintro rfl
      rw [hfirst] at hkey
      cases hkey

theorem statements?_note_iff {text after : List Char} (h : (Line.note text).WellFormed) :
    statements? (limit + 1) p ((Line.note text).charsBefore after) = some q ↔
      statements? limit p after = some q := by
  rw [statements?_eq_some_iff]
  rcases h with rfl | ⟨comment, rfl, hcomment⟩
  · have hstatement : statement? p (skipBlanks ((Line.note []).charsBefore after)) =
        some (p, '\n' :: after) := rfl
    have hline : skipComment? (skipBlanks ('\n' :: after)) = some ('\n' :: after) := rfl
    simp [hstatement, hline]
  · have hstatement : statement? p (skipBlanks ((Line.note ('#' :: comment)).charsBefore after)) =
        some (p, '#' :: (comment ++ '\n' :: after)) := rfl
    have hne (c : Char) (hc : c ∈ comment) : (c != '\n') = true := by
      rw [any_eq_false] at hcomment
      have hcontrol := hcomment c hc
      rw [bne_iff_ne]
      rintro rfl
      exact hcontrol isControl_newline
    have hline : skipComment? (skipBlanks ('#' :: (comment ++ '\n' :: after))) =
        some ('\n' :: after) := by
      have htake : (comment ++ '\n' :: after).takeWhile (· != '\n') = comment := by
        rw [takeWhile_append_of_pos hne]
        simp
      have hdrop : (comment ++ '\n' :: after).dropWhile (· != '\n') = '\n' :: after := by
        rw [dropWhile_append_of_pos hne]
        simp
      simp [skipBlanks, isBlank, skipComment?, htake, hdrop, hcomment]
    simp [hstatement, hline]

/-- The lines are read as the entries that they are written for exactly if all texts are plain. -/
theorem statements?_document_iff (hp : AtTop p) (hlines : ∀ line ∈ lines, line.WellFormed)
    (hnames : ((entries lines).map Prod.fst).Nodup)
    (hnew : ∀ entry ∈ entries lines, p.data.get? entry.1 = none) (hlimit : lines.length < limit) :
    (statements? limit p (document lines) = some q ∧
        ∀ entry ∈ entries lines, q.data.get? entry.1 = some entry.2.value) ↔
      (∀ entry ∈ entries lines, ∀ s ∈ entry.2.texts, Plain s.toList) ∧ q = p.enteredAll lines := by
  induction lines generalizing p limit with
  | nil =>
    obtain ⟨limit, rfl⟩ : ∃ n, limit = n + 1 := ⟨limit - 1, by simp at hlimit; omega⟩
    have hend : statements? (limit + 1) p (document []) = some p := rfl
    simp [hend, entries, Progress.enteredAll, eq_comm]
  | cons line lines ih =>
    obtain ⟨limit, rfl⟩ : ∃ n, limit = n + 1 := ⟨limit - 1, by simp at hlimit; omega⟩
    have hrest : ∀ line ∈ lines, line.WellFormed :=
      fun l hl => hlines l (mem_cons_of_mem _ hl)
    have hfewer : lines.length < limit := by simpa using hlimit
    cases line with
    | note text =>
      rw [document_cons, statements?_note_iff (hlines _ mem_cons_self), entries_note]
      exact ih hp hrest hnames hnew hfewer
    | entry name item =>
      obtain ⟨hname, hs⟩ := hlines _ mem_cons_self
      simp only [entries_entry, map_cons, nodup_cons, forall_mem_cons]
        at hnames hnew
      have hstep := @statements?_entry_iff p q name item (document lines) limit hp hname
        hnew.1 hs
        (head?_document hrest (by decide) (by decide) (by decide))
        (head?_document hrest (by decide) (by decide) (by decide))
      have hnew' : ∀ entry ∈ entries lines,
          (p.entered name item.value).data.get? entry.1 = none := by
        intro entry hentry
        have hne : entry.1 ≠ name := by
          rintro rfl
          exact hnames.1 (mem_map_of_mem hentry)
        rw [Progress.entered, get?_put hp.isTable, if_neg hne, hnew.2 entry hentry]
      have ih := @ih (p.entered name item.value) limit (hp.entered name item.value) hrest
        hnames.2 hnew' hfewer
      rw [document_cons, entries_entry, forall_mem_cons, forall_mem_cons, ← and_assoc]
      rw [Line.charsBefore, hstep, and_assoc, ih, and_assoc]
      rfl

theorem Line.length_charsBefore (line : Line) (after : List Char) :
    after.length + 1 ≤ (line.charsBefore after).length := by
  cases line with
  | note text => simp [Line.charsBefore]
  | entry name item =>
    have hle := item.length_charsBefore ('\n' :: after)
    simp [Line.charsBefore, entryBefore] at *
    omega

theorem length_le_document (lines : List Line) : lines.length ≤ (document lines).length := by
  induction lines with
  | nil => simp
  | cons line lines ih =>
    have hstep := line.length_charsBefore (document lines)
    rw [document_cons, length_cons]
    omega

theorem get?_enteredAll (hp : AtTop p) (hnames : ((entries lines).map Prod.fst).Nodup)
    (name : String) :
    (p.enteredAll lines).data.get? name =
      (((entries lines).lookup name).map Item.value).or (p.data.get? name) := by
  unfold Progress.enteredAll
  generalize entries lines = list at hnames
  induction list generalizing p with
  | nil => simp
  | cons entry list ih =>
    obtain ⟨first, item⟩ := entry
    obtain ⟨hfirst, hnames⟩ := nodup_cons.mp hnames
    rw [foldl_cons, ih (hp.entered first item.value) hnames, Progress.entered,
      get?_put hp.isTable]
    by_cases hname : name = first
    · subst hname
      have hnone : list.lookup name = none := by
        rw [lookup_eq_none_iff]
        intro entry hentry
        have hne : name ≠ entry.1 := by
          rintro rfl
          exact hfirst (mem_map.mpr ⟨entry, hentry, rfl⟩)
        simpa using hne
      simp [hnone]
    · have hbeq : (name == first) = false := by simpa using hname
      simp [lookup_cons, hbeq, hname]

/-- A line end stays as it is if the line does not end in a carriage return. -/
theorem dropReturns_line {line after : List Char} (hline : '\n' ∉ line)
    (hlast : line.getLast? ≠ some '\r') :
    dropReturns (line ++ '\n' :: after) = line ++ '\n' :: dropReturns after := by
  induction line with
  | nil => simp [dropReturns]
  | cons c line ih =>
    cases line with
    | nil =>
      have hc : c ≠ '\r' := by simpa using hlast
      simp [dropReturns, hc]
    | cons d line =>
      have hd : d ≠ '\n' := fun heq => hline (by simp [heq])
      have ih := ih (fun hmem => hline (mem_cons_of_mem _ hmem)) (by simpa using hlast)
      rw [cons_append, dropReturns, ih]
      · rfl
      · simp [hd]

theorem dropReturns_linesBefore {texts : List String} {after : List Char}
    (hs : ∀ s ∈ texts, '\n' ∉ s.toList) :
    dropReturns (Item.linesBefore ('\n' :: after) texts) =
      Item.linesBefore ('\n' :: dropReturns after) texts := by
  induction texts with
  | nil => exact @dropReturns_line [']'] after (by simp) (by simp)
  | cons s texts ih =>
    obtain ⟨hfirst, hs⟩ := forall_mem_cons.mp hs
    have hline := @dropReturns_line ([' ', ' ', '"'] ++ s.toList ++ ['"', ','])
      (Item.linesBefore ('\n' :: after) texts) (by simp [hfirst])
      (by rw [List.getLast?_append]; simp)
    rw [ih hs] at hline
    simpa [Item.linesBefore] using hline

theorem dropReturns_charsBefore {front after : List Char} {item : Item} (hfront : '\n' ∉ front)
    (hs : ∀ s ∈ item.texts, '\n' ∉ s.toList) :
    dropReturns (front ++ item.charsBefore ('\n' :: after)) =
      front ++ item.charsBefore ('\n' :: dropReturns after) := by
  match item with
  | .flag b =>
    have hline := @dropReturns_line (front ++ (if b then "true" else "false").toList) after
      (by cases b <;> simp [hfront]) (by cases b <;> simp)
    simpa [Item.charsBefore] using hline
  | .text s =>
    have hs : '\n' ∉ s.toList := hs s (by simp [Item.texts])
    have hline := @dropReturns_line (front ++ ['"'] ++ s.toList ++ ['"']) after
      (by simp [hfront, hs]) (by rw [List.getLast?_append]; simp)
    simpa [Item.charsBefore] using hline
  | .list [] =>
    have hopen := @dropReturns_line (front ++ ['[']) ('\n' :: ']' :: '\n' :: after)
      (by simp [hfront]) (by simp)
    simpa [Item.charsBefore, dropReturns] using hopen
  | .list (s :: texts) =>
    have hopen := @dropReturns_line (front ++ ['['])
      (Item.linesBefore ('\n' :: after) (s :: texts)) (by simp [hfront]) (by simp)
    rw [@dropReturns_linesBefore (s :: texts) after hs] at hopen
    simpa [Item.charsBefore] using hopen

theorem dropReturns_document (hlines : ∀ line ∈ lines, line.WellFormed) :
    dropReturns (document lines) = document lines := by
  induction lines with
  | nil => rfl
  | cons line lines ih =>
    obtain ⟨hline, hrest⟩ := forall_mem_cons.mp hlines
    rw [document_cons]
    cases line with
    | note text =>
      have htext : '\n' ∉ text ∧ text.getLast? ≠ some '\r' := by
        rcases hline with rfl | ⟨comment, rfl, hcomment⟩
        · simp
        · rw [any_eq_false] at hcomment
          refine ⟨fun hmem => ?_, fun hlast => ?_⟩
          · exact hcomment '\n' (by simpa using hmem) (by decide)
          · exact hcomment '\r' (by simpa using mem_of_getLast? hlast) (by decide)
      rw [Line.charsBefore, dropReturns_line htext.1 htext.2, ih hrest]
    | entry name item =>
      obtain ⟨⟨-, hname⟩, hs⟩ := hline
      have hfront : '\n' ∉ name.toList ++ [' ', '=', ' '] := by
        have hkey := hname '\n'
        simpa using fun hmem => absurd (hkey hmem) (by decide)
      have hentry := @dropReturns_charsBefore _ (document lines) item hfront hs
      rw [ih hrest] at hentry
      simpa [Line.charsBefore, entryBefore] using hentry

end Documents

end SattLine.Toml
