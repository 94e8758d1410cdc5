import SattLine.Proofs.Project.Traversal

/-!
The names that the lists of a project hold. A list has a name on a line, so it has no more names
than its file has bytes. Main statement: all names that any list in a store holds are no more than
the bytes in the store, which bounds the chains of dependencies.
-/

namespace SattLine

open List

namespace Text

/-- The number of lines that have characters. -/
def lineCount (lines : List (List Char)) : Nat :=
  lines.countP fun line => !line.isEmpty

theorem lineCount_cons_le (current : List Char) (lines : List (List Char)) :
    lineCount (current.reverse :: lines) ≤ current.length + lineCount lines := by
  cases current with
  | nil => simp [lineCount]
  | cons c current =>
    have hone : lineCount ((c :: current).reverse :: lines) ≤ lineCount lines + 1 := by
      rw [lineCount, countP_cons, lineCount]
      split <;> omega
    simp only [length_cons]
    omega

/-- A text has at most as many lines with characters as it has characters. -/
theorem lineCount_linesFrom_le (current chars : List Char) :
    lineCount (linesFrom false current chars) ≤ current.length + chars.length := by
  fun_induction linesFrom false current chars with
  | case1 => simp [lineCount]
  | case2 current =>
    have hline := lineCount_cons_le current []
    simpa [lineCount] using hline
  | case3 current rest ih | case4 current c rest _ _ ih =>
    have hline := lineCount_cons_le current (linesFrom false [] rest)
    simp only [Bool.false_eq_true, ↓reduceIte, length_cons, length_nil] at ih ⊢
    omega
  | case5 current c rest _ _ ih =>
    simp only [length_cons] at ih ⊢
    omega

/-- The names in a list of names: one on a line. -/
def namesOnLines (text : String) : List String :=
  ((lines text).map trim).filter (· != "")

theorem length_namesOnLines_le (text : String) :
    (namesOnLines text).length ≤ text.toList.length := by
  have hblank : trim (String.ofList []) = "" := by decide
  calc (namesOnLines text).length
      ≤ lineCount (linesFrom false [] text.toList) := by
        simp only [namesOnLines, lines, map_map, ← countP_eq_length_filter,
          countP_map, lineCount]
        apply countP_mono_left
        intro line _ hname
        cases line with
        | nil => simp [hblank] at hname
        | cons c rest => rfl
    _ ≤ text.toList.length := by
        simpa using lineCount_linesFrom_le [] text.toList

theorem length_unifyNewlinesChars_le (chars : List Char) :
    (unifyNewlinesChars chars).length ≤ chars.length := by
  fun_induction unifyNewlinesChars chars with
  | case1 => simp
  | case2 rest ih =>
    simp only [length_cons]
    omega
  | case3 c rest _ ih => simpa using ih

theorem length_le_size (text : String) : text.toList.length ≤ text.toByteArray.size := by
  rw [← String.utf8Encode_toList]
  induction text.toList with
  | nil => simp
  | cons c rest ih =>
    have hsize := c.utf8Size_pos
    rw [utf8Encode_cons, ByteArray.size_append, length_cons]
    simp only [utf8Encode_singleton, size_toByteArray, String.length_utf8EncodeChar]
    omega

theorem length_windowsChars {position : Nat} {bytes : List UInt8} {chars : List Char}
    (h : windowsChars position bytes = .ok chars) : chars.length = bytes.length := by
  induction bytes generalizing position chars with
  | nil =>
    cases h
    rfl
  | cons byte rest ih =>
    rw [windowsChars] at h
    cases hbyte : windowsChar? byte with
    | none => simp [hbyte] at h
    | some c =>
      cases hrest : windowsChars (position + 1) rest with
      | error cause => simp [hbyte, hrest, bind, Except.bind] at h
      | ok others =>
        simp only [hbyte, hrest, bind, Except.bind, pure, Except.pure, Except.ok.injEq] at h
        rw [← h, length_cons, length_cons, ih hrest]

theorem length_toList_loop (bytes : ByteArray) (i : Nat) (found : List UInt8) :
    (ByteArray.toList.loop bytes i found).length = found.length + (bytes.size - i) := by
  induction i, found using ByteArray.toList.loop.induct bytes with
  | case1 i found hi ih =>
    rw [ByteArray.toList.loop, if_pos hi, ih, length_cons]
    omega
  | case2 i found hi =>
    rw [ByteArray.toList.loop, if_neg hi, length_reverse]
    omega

/-- Bytes stand for at most as many characters. -/
theorem length_ofBytes_le {bytes : ByteArray} {text : String} (h : ofBytes bytes = .ok text) :
    text.toList.length ≤ bytes.size := by
  unfold ofBytes at h
  split at h
  · next found hfound =>
    cases h
    unfold String.fromUTF8? at hfound
    split at hfound
    · next hvalid =>
      cases hfound
      exact length_le_size (String.fromUTF8 bytes hvalid)
    · cases hfound
  · rw [ofWindows] at h
    cases hchars : windowsChars 0 bytes.toList with
    | error cause => simp [hchars, Except.map] at h
    | ok chars =>
      simp only [hchars, Except.map, Except.ok.injEq] at h
      rw [← h, String.toList_ofList, length_windowsChars hchars, ByteArray.toList,
        length_toList_loop]
      simp

end Text

/-- The names that a file holds if it is a list of names. -/
def Entry.names : Entry → List String
  | .file bytes =>
    match Text.ofBytes bytes with
    | .ok text => Text.namesOnLines (Text.unifyNewlines text)
    | .error _ => []
  | _ => []

theorem Entry.length_names_le (entry : Entry) : entry.names.length ≤ entry.size := by
  cases entry with
  | file bytes =>
    simp only [Entry.names, Entry.size]
    split
    · next text htext =>
      have hnames := Text.length_namesOnLines_le (Text.unifyNewlines text)
      have hunified := Text.length_unifyNewlinesChars_le text.toList
      have hbytes := Text.length_ofBytes_le htext
      rw [Text.unifyNewlines, String.toList_ofList] at hnames
      exact Nat.le_trans (Nat.le_trans hnames hunified) hbytes
    · simp
  | _ => simp [Entry.names]

namespace Store

/-- The names in all files of a store. -/
def names (store : Store) : List String :=
  store.entries.flatMap fun entry => entry.2.names

theorem length_names_le (store : Store) : store.names.length ≤ store.byteCount := by
  have hsum : ∀ (entries : List (List String × Entry)) (total : Nat),
      (entries.flatMap fun entry => entry.2.names).length + total ≤
        entries.foldl (fun total entry => total + entry.2.size) total := by
    intro entries
    induction entries with
    | nil => simp
    | cons entry rest ih =>
      intro total
      have hentry := entry.2.length_names_le
      have hrest := ih (total + entry.2.size)
      simp only [flatMap_cons, length_append, foldl_cons]
      omega
  simpa [names, byteCount] using hsum store.entries 0

theorem names_subset_of_look {store : Store} {location : Location} {bytes : ByteArray}
    (h : store.look location = .file bytes) : (Entry.file bytes).names ⊆ store.names := by
  have hentry : ∀ place, store.entryAt place = .file bytes →
      ∃ entry ∈ store.entries, entry.2 = .file bytes := by
    intro place hplace
    cases place with
    | nil => simp [entryAt] at hplace
    | cons first rest =>
      simp only [entryAt] at hplace
      cases hfound : store.entries.find? fun entry => entry.1 == first :: rest with
      | none => simp [hfound] at hplace
      | some entry =>
        rw [hfound] at hplace
        exact ⟨entry, mem_of_find?_eq_some hfound, hplace⟩
  unfold look at h
  split at h
  · cases h
  · split at h
    · next place _ =>
      obtain ⟨entry, hmem, heq⟩ := hentry place h
      intro name hname
      exact mem_flatMap.mpr ⟨entry, hmem, heq ▸ hname⟩
    · cases h

end Store

namespace Project

theorem dependencies_subset {store : Store} {file : Location} {found : List String}
    (h : dependencies store file = .ok found) : found ⊆ store.names := by
  have hbytes : ∃ bytes, store.look file = .file bytes ∧ found = (Entry.file bytes).names := by
    unfold dependencies Store.text Store.bytes at h
    cases hlook : store.look file with
    | absent cause | folder => simp [hlook, bind, Except.bind] at h
    | file bytes =>
      refine ⟨bytes, rfl, ?_⟩
      cases htext : Text.ofBytes bytes with
      | error cause =>
        simp [hlook, htext, bind, Except.bind, throw, throwThe, MonadExceptOf.throw] at h
      | ok text =>
        simp only [hlook, htext, bind, Except.bind, pure, Except.pure, Except.ok.injEq] at h
        simp [← h, Entry.names, htext, Text.namesOnLines]
  obtain ⟨bytes, hlook, rfl⟩ := hbytes
  exact Store.names_subset_of_look hlook

namespace Loader

/-- The names that the list of a name holds; none if there is no list that can be read. -/
def listed (loader : Loader) (store : Store) (name : String) : List String :=
  match loader.list? store name with
  | .ok (some file) => (dependencies store file).toOption.getD []
  | _ => []

theorem listed_subset (loader : Loader) (store : Store) (name : String) :
    loader.listed store name ⊆ store.names := by
  unfold listed
  split
  · next file _ =>
    cases hfound : dependencies store file with
    | error cause => simp [Except.toOption]
    | ok found => exact dependencies_subset hfound
  · simp

/-- From the beginning, no chain of dependencies is longer than the limit. -/
theorem bounded_start (loader : Loader) (store : Store) (root : String) :
    Bounded (loader.listed store) ((root :: store.names).map Text.lower) {} (chainLimit store) where
  listed := fun name _ hother => mem_map_of_mem
    (mem_cons_of_mem _ (loader.listed_subset store name hother))
  nodup := nodup_nil
  subset := nil_subset _
  length_le := by
    have hnames := store.length_names_le
    simp only [length_map, length_cons, length_nil, chainLimit]
    omega

end Loader

end Project

end SattLine
