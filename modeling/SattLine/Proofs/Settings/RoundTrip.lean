import SattLine.Menu.Script
import SattLine.Proofs.Lists
import SattLine.Proofs.Menu.Outcome
import SattLine.Proofs.Toml.Line

/-!
Settings that are saved and loaded again. Main statement: what is loaded is what was saved exactly
if every text among the settings is plain, that is, has no quote mark, no backslash and no control
character but tabs.
-/

namespace SattLine

namespace Store

variable {store : Store} {file : Location} {place place' parts : List String} {bytes : ByteArray}

/-- A file can be written at the location: its folder is there, and at its place there is a file or
nothing. -/
structure Accepts (store : Store) (file : Location) (place : List String) : Prop where
  hasNul : file.hasNul = false
  walk : store.walk (store.start file) file.parts = .ok place
  entryAt : store.entryAt place = .absent .missing ∨ ∃ old, store.entryAt place = .file old

theorem Accepts.ne_folder (h : store.Accepts file place) : store.entryAt place ≠ .folder := by
  intro hfolder
  rcases h.entryAt with hnone | ⟨old, hold⟩
  · cases hfolder.symm.trans hnone
  · cases hfolder.symm.trans hold

theorem Accepts.look (h : store.Accepts file place) : store.look file = store.entryAt place := by
  rw [Store.look, h.hasNul, h.walk]
  rfl

theorem settle_of_walk (h : store.walk place parts = .ok place') :
    Location.settle place parts = place' := by
  induction parts generalizing place with
  | nil => exact Except.ok.inj h
  | cons part rest ih =>
    rw [walk] at h
    split at h
    · split at h
      · cases h
      · have hrest := ih h
        by_cases hup : part = ".."
        · subst hup
          simpa [Location.settle] using hrest
        · rw [Location.settle]
          · simpa [hup] using hrest
          · exact hup
    · cases h
    · cases h

/-- Folders stay, also those that are made for the new file. -/
theorem entryAt_write_folder {way : List String} (h : store.entryAt way = .folder)
    (hne : place ≠ way) : (store.write place bytes).entryAt way = .folder := by
  cases way with
  | nil => rfl
  | cons part rest =>
    simp only [entryAt] at h ⊢
    rw [write, makeFolder, List.find?_cons_of_neg (by simpa using hne), List.find?_append]
    generalize hmade : List.find? (fun entry : List String × Entry => entry.1 == part :: rest)
      (List.map (·, Entry.folder) _) = made
    cases made with
    | none => exact h
    | some found =>
      obtain ⟨way, -, rfl⟩ := List.mem_map.mp (List.mem_of_find?_eq_some hmade)
      rfl

theorem walk_write (h : store.walk place parts = .ok place')
    (hfile : store.entryAt place' ≠ .folder) :
    (store.write place' bytes).walk place parts = .ok place' := by
  induction parts generalizing place with
  | nil => exact h
  | cons part rest ih =>
    rw [walk] at h ⊢
    split at h
    · rename_i hfolder
      have hne : place' ≠ place := by
        rintro rfl
        exact hfile hfolder
      rw [entryAt_write_folder hfolder hne]
      dsimp only
      split at h
      · cases h
      · rename_i hlength
        rw [if_neg hlength]
        exact ih h
    · cases h
    · cases h

theorem look_write (h : store.Accepts file place) :
    (store.write place bytes).look file = .file bytes := by
  have hwalk : (store.write place bytes).walk ((store.write place bytes).start file) file.parts =
      .ok place :=
    walk_write h.walk h.ne_folder
  rw [look, hwalk, h.hasNul]
  cases place with
  | nil => exact absurd rfl h.ne_folder
  | cons part rest => simp [Store.entryAt, write]

end Store

namespace Settings

/-- The same value under every name. -/
def Same (s t : Settings) : Prop :=
  ∀ name, s.get? name = t.get? name

theorem get?_ofValue (v : Value) (name : String) : (ofValue v).get? name = v.get? name := by
  cases v with
  | dict keys values =>
    simp only [ofValue, get?, Value.get?]
    generalize keys.zip values = pairs
    induction pairs with
    | nil => rfl
    | cons pair pairs ih =>
      obtain ⟨key, value⟩ := pair
      cases hkey : key.text? with
      | none => simpa [hkey] using ih
      | some text =>
        by_cases hname : name = text
        · simp [hkey, hname]
        · have hbeq : (name == text) = false := by simpa using hname
          simpa [hkey, hname, Ne.symm hname, List.lookup_cons, hbeq] using ih
  | _ => rfl

end Settings

/-- Settings of the kinds that they have in a new installation. -/
structure Configuration where
  root : String
  mode : String
  ignoreVendor : Bool
  rootOnly : Bool
  detailed : Bool
  vendorFolder : String
  programFolder : String
  libraries : List String

namespace Configuration

open Toml

variable {c : Configuration}

def items (c : Configuration) : List (String × Item) :=
  [("root", .text c.root), ("mode", .text c.mode), ("ignore_ABB_lib", .flag c.ignoreVendor),
    ("scan_root_only", .flag c.rootOnly), ("debug", .flag c.detailed),
    ("ABB_lib_dir", .text c.vendorFolder), ("program_dir", .text c.programFolder),
    ("other_lib_dirs", .list c.libraries)]

def settings (c : Configuration) : Settings :=
  ⟨c.items.map fun (name, item) => (name, item.value)⟩

def texts (c : Configuration) : List String :=
  [c.root, c.mode, c.vendorFolder, c.programFolder] ++ c.libraries

def ruler : List Char :=
  '#' :: ' ' :: List.replicate 28 '-'

def banner (title : String) : List Line :=
  [.note ruler, .note ('#' :: ' ' :: title.toList), .note ruler]

/-- The lines of the file of settings. -/
def lines (c : Configuration) : List Line :=
  banner "General project configuration" ++
    (c.items.take 5).map (fun (name, item) => Line.entry name item) ++ Line.note [] :: banner "Paths" ++
    ((c.items.drop 5).take 2).map (fun (name, item) => Line.entry name item) ++
    [Line.note [], .entry "other_lib_dirs" (.list c.libraries)]

theorem entries_lines : entries c.lines = c.items :=
  rfl

theorem toList_listed (s : String) (texts : List String) (after : List Char) :
    List.intercalate ['\n'] (((s :: texts).map fun t => "  " ++ Settings.inQuotes t ++ ",").map
      String.toList) ++ '\n' :: ']' :: after = Item.linesBefore after (s :: texts) := by
  induction texts generalizing s with
  | nil => simp [Item.linesBefore, Settings.inQuotes]
  | cons t texts ih =>
    have ih := ih t
    simp only [List.map_cons, List.intercalate_cons_cons] at ih ⊢
    rw [Item.linesBefore, ← ih]
    simp [Settings.inQuotes]

theorem toList_written (item : Item) (after : List Char) :
    (Settings.written item.value).toList ++ after = item.charsBefore after := by
  match item with
  | .flag true => rfl
  | .flag false => rfl
  | .text s => simp [Settings.written, Item.value, Item.charsBefore, Settings.inQuotes, Value.plain]
  | .list [] => rfl
  | .list (s :: texts) =>
    have hshown : ((s :: texts).map Value.text).map
        (fun v => "  " ++ Settings.inQuotes v.plain ++ ",") =
          (s :: texts).map fun t => "  " ++ Settings.inQuotes t ++ "," := by
      rw [List.map_map]
      rfl
    rw [Item.charsBefore, ← toList_listed s texts after, Item.value, Settings.written, hshown,
      String.toList_append, String.toList_append, String.toList_intercalate, List.append_assoc,
      List.append_assoc]
    rfl

theorem toList_line (name : String) (item : Item) (after : List Char) :
    (name ++ " = " ++ Settings.written item.value ++ "\n").toList ++ after =
      entryBefore after name item := by
  simp [entryBefore, ← toList_written]

variable {title : String}

theorem toList_around {a b : String} {below above after : List Char} (ha : a.toList = below)
    (hb : b.toList = above) :
    (a ++ title ++ b).toList ++ after = below ++ (title.toList ++ (above ++ after)) := by
  simp [ha, hb]

theorem toList_banner (title : String) (after : List Char) :
    (Settings.banner title).toList ++ after =
      (banner title).foldr (fun line after => line.charsBefore after) after := by
  have hbelow : "# ----------------------------\n# ".toList = ruler ++ ['\n', '#', ' '] := by
    decide
  have habove : "\n# ----------------------------\n".toList = '\n' :: (ruler ++ ['\n']) := by
    decide
  refine (toList_around hbelow habove).trans ?_
  simp [banner, Line.charsBefore]

theorem render_eq {s : Settings} (h : s.Same c.settings) :
    s.render = .ok (String.ofList (document c.lines)) := by
  have hline (name : String) (item : Item) (hmem : c.settings.get? name = some item.value) :
      s.line name = .ok (name ++ " = " ++ Settings.written item.value ++ "\n") := by
    rw [Settings.line, Settings.get, h name, hmem]
    rfl
  have hrender : s.render = .ok (Settings.banner "General project configuration" ++
      String.join ((c.items.take 5).map fun (name, item) =>
        name ++ " = " ++ Settings.written item.value ++ "\n") ++ "\n" ++
      Settings.banner "Paths" ++
      String.join (((c.items.drop 5).take 2).map fun (name, item) =>
        name ++ " = " ++ Settings.written item.value ++ "\n") ++ "\n" ++
      ("other_lib_dirs" ++ " = " ++ Settings.written (Item.list c.libraries).value ++ "\n")) := by
    simp only [Settings.render, List.mapM_cons, List.mapM_nil, hline "root" (.text c.root) rfl,
      hline "mode" (.text c.mode) rfl, hline "ignore_ABB_lib" (.flag c.ignoreVendor) rfl,
      hline "scan_root_only" (.flag c.rootOnly) rfl, hline "debug" (.flag c.detailed) rfl,
      hline "ABB_lib_dir" (.text c.vendorFolder) rfl,
      hline "program_dir" (.text c.programFolder) rfl,
      hline "other_lib_dirs" (.list c.libraries) rfl]
    rfl
  rw [hrender]
  refine congrArg Except.ok (String.toList_inj.mp ?_)
  have hnewline (after : List Char) : "\n".toList ++ after = '\n' :: after := rfl
  have hend := toList_line "other_lib_dirs" (.list c.libraries) []
  rw [List.append_nil] at hend
  have hparts (a b c d e f g : String) : (a ++ b ++ c ++ d ++ e ++ f ++ g).toList =
      a.toList ++ (b.toList ++ (c.toList ++ (d.toList ++ (e.toList ++
        (f.toList ++ g.toList))))) := by
    simp
  have hjoin (entries : List (String × Item)) (after : List Char) :
      (String.join (entries.map fun (name, item) =>
        name ++ " = " ++ Settings.written item.value ++ "\n")).toList ++ after =
      (entries.map fun (name, item) => Line.entry name item).foldr
        (fun line after => line.charsBefore after) after := by
    induction entries with
    | nil => rfl
    | cons entry entries ih =>
      rw [List.map_cons, String.join_cons, String.toList_append, List.append_assoc, ih,
        toList_line]
      rfl
  rw [hparts, hend, hnewline, hjoin, hnewline, toList_banner, hjoin, toList_banner,
    String.toList_ofList]
  simp only [document, lines, List.foldr_append, List.foldr_cons, List.foldr_nil,
    Line.charsBefore, List.nil_append]

theorem banner_wellFormed (h : title.toList.any isControl = false) :
    ∀ line ∈ banner title, line.WellFormed := by
  have hruler : (Line.note ruler).WellFormed := .inr ⟨_, rfl, by decide⟩
  have htitle : (Line.note ('#' :: ' ' :: title.toList)).WellFormed :=
    .inr ⟨_, rfl, by simpa [isControl] using h⟩
  simp [banner, hruler, htitle]

theorem nodup_items : ((c.items).map Prod.fst).Nodup := by
  have hnames : ["root", "mode", "ignore_ABB_lib", "scan_root_only", "debug", "ABB_lib_dir",
    "program_dir", "other_lib_dirs"].Nodup := by decide
  exact hnames

theorem get?_settings (name : String) :
    c.settings.get? name = (c.items.lookup name).map Item.value := by
  rw [settings, Settings.get?]
  induction c.items with
  | nil => rfl
  | cons entry items ih =>
    obtain ⟨first, item⟩ := entry
    cases hname : name == first with
    | true => simp [List.lookup_cons, hname]
    | false => simpa [List.lookup_cons, hname] using ih

theorem items_wellFormed (h : ∀ t ∈ c.texts, '\n' ∉ t.toList) :
    ∀ entry ∈ c.items, (Line.entry entry.1 entry.2).WellFormed := by
  have hnames : ∀ name ∈ c.items.map Prod.fst, IsName name := by
    have hnames : ∀ name ∈ ["root", "mode", "ignore_ABB_lib", "scan_root_only", "debug",
      "ABB_lib_dir", "program_dir", "other_lib_dirs"], IsName name := by decide
    exact hnames
  have htexts : ∀ entry ∈ c.items, ∀ s ∈ entry.2.texts, '\n' ∉ s.toList := by
    simpa [items, texts, Item.texts] using h
  exact fun entry hmem => ⟨hnames entry.1 (List.mem_map_of_mem hmem), htexts entry hmem⟩

theorem lines_wellFormed (h : ∀ t ∈ c.texts, '\n' ∉ t.toList) :
    ∀ line ∈ c.lines, line.WellFormed := by
  have hitems := items_wellFormed h
  have hblank : (Line.note []).WellFormed := .inl rfl
  have hgeneral := @banner_wellFormed "General project configuration" (by decide)
  have hpaths := @banner_wellFormed "Paths" (by decide)
  intro line hmem
  simp only [lines, List.mem_append, List.mem_cons, List.mem_map, List.not_mem_nil, or_false]
    at hmem
  rcases hmem with (((hmem | ⟨entry, hmem, rfl⟩) | rfl | hmem) | ⟨entry, hmem, rfl⟩) | rfl | rfl
  · exact hgeneral line hmem
  · exact hitems entry (List.mem_of_mem_take hmem)
  · exact hblank
  · exact hpaths line hmem
  · exact hitems entry (List.mem_of_mem_drop (List.mem_of_mem_take hmem))
  · exact hblank
  · exact hitems ("other_lib_dirs", .list c.libraries) (by simp [items])

theorem plain_items_iff :
    (∀ entry ∈ c.items, ∀ s ∈ entry.2.texts, Plain s.toList) ↔ ∀ t ∈ c.texts, Plain t.toList := by
  simp [items, texts, Item.texts]

theorem parse?_lines (h : ∀ t ∈ c.texts, '\n' ∉ t.toList) :
    Settings.parse? (String.ofList (document c.lines)) =
      (statements? ((document c.lines).length + 1) {} (document c.lines)).map
        fun q => Settings.ofValue q.data := by
  rw [Settings.parse?, Toml.parse?, String.toList_ofList, dropReturns_document (lines_wellFormed h)]
  cases statements? ((document c.lines).length + 1) {} (document c.lines) <;> rfl

/-- The text of the file is read as the settings that it was written for exactly if all texts are
plain. -/
theorem parse?_iff (h : ∀ t ∈ c.texts, '\n' ∉ t.toList) :
    (∃ loaded, Settings.parse? (String.ofList (document c.lines)) = some loaded ∧
        loaded.Same c.settings) ↔ ∀ t ∈ c.texts, Plain t.toList := by
  have hwell := lines_wellFormed h
  have hread (q : Progress) := @statements?_document_iff {} q c.lines
    ((document c.lines).length + 1) atTop_empty hwell nodup_items (fun _ _ => rfl)
    (Nat.lt_succ_of_le (length_le_document c.lines))
  rw [parse?_lines h, ← plain_items_iff]
  constructor
  · rintro ⟨loaded, hloaded, hsame⟩
    obtain ⟨q, hq, rfl⟩ := Option.map_eq_some_iff.mp hloaded
    refine ((hread q).mp ⟨hq, fun entry hmem => ?_⟩).1
    rw [← Settings.get?_ofValue, hsame, get?_settings,
      (lookup_eq_some_iff_mem nodup_items).mpr hmem]
    rfl
  · intro hplain
    obtain ⟨hq, -⟩ := (hread _).mpr ⟨hplain, rfl⟩
    refine ⟨_, Option.map_eq_some_iff.mpr ⟨_, hq, rfl⟩, fun name => ?_⟩
    rw [Settings.get?_ofValue, @get?_enteredAll _ c.lines atTop_empty nodup_items, get?_settings,
      entries_lines]
    exact Option.or_none

end Configuration

namespace Menu

open SattLine.Configuration

variable {script : Script} {s : Settings} {file : Location}

variable {text : String} {place : List String}

theorem write_eq (h : script.store.Accepts file place) :
    Script.write file text script =
      (.ok (), { script with store := script.store.write place text.toUTF8 }) := by
  have hlook := h.look
  have hsettle := Store.settle_of_walk h.walk
  change (Script.write file text).run script = _
  rcases h.entryAt with hentry | ⟨old, hentry⟩ <;> rw [hentry] at hlook <;>
    simp [Script.write, hlook, hsettle] <;> rfl

/-- Saving changes nothing but the file. -/
theorem follow_save (hrender : s.render = .ok text) (h : script.store.Accepts file place) :
    script.follow s (saveSettings Script.host file) =
      ((.ok (), s), { script with
        output := script.output ++ ("✔ Config saved to " ++ file.text ++ "\n")
        store := script.store.write place text.toUTF8 }) := by
  have hwrite : outcome (liftM (Script.host.write file text)) s script =
      ((.ok (.ok ()), s), { script with store := script.store.write place text.toUTF8 }) := by
    rw [outcome_lift, show Script.host.write file text script = _ from write_eq h]
  show outcome (saveSettings Script.host file) s script = _
  rw [saveSettings, outcome_bind_ok outcome_get, outcome_bind_ok (outcome_ofFault_ok hrender),
    outcome_bind_ok hwrite]
  rfl

theorem fromUTF8?_toUTF8 (text : String) : String.fromUTF8? text.toUTF8 = some text :=
  dif_pos text.isValidUTF8

theorem follow_load (h : script.store.look file = .file text.toUTF8) :
    script.follow s (loadSettings Script.host file) =
      match Settings.parse? text with
      | none => ((.error .malformedSettings, s), script)
      | some loaded => ((.ok false, loaded), script) := by
  have hlook : outcome (liftM (Script.host.look file)) s script =
      ((.ok (.file text.toUTF8), s), script) := by
    rw [outcome_lift, ← h]
    rfl
  show outcome (loadSettings Script.host file) s script = _
  rw [loadSettings, outcome_bind_ok hlook]
  simp only [fromUTF8?_toUTF8]
  cases Settings.parse? text <;> rfl

/-- What is loaded behind saving is what the written text is read as. -/
theorem follow_save_load {c : Configuration} (hs : s.Same c.settings)
    (hfile : script.store.Accepts file place) :
    (script.follow s do
        saveSettings Script.host file
        loadSettings Script.host file).1 =
      match Settings.parse? (String.ofList (Toml.document c.lines)) with
      | none => (.error .malformedSettings, s)
      | some loaded => (.ok false, loaded) := by
  have hsave := follow_save (render_eq hs) hfile
  have hload := fun output => @follow_load
    { script with
      output := output
      store := script.store.write place (String.ofList (Toml.document c.lines)).toUTF8 }
    s file _ (Store.look_write hfile)
  show (outcome (saveSettings Script.host file >>= fun _ => loadSettings Script.host file) s
    script).1 = _
  rw [outcome_bind_ok hsave, show outcome (loadSettings Script.host file) s _ = _ from hload _]
  cases Settings.parse? (String.ofList (Toml.document c.lines)) <;> rfl

/-- Settings that are saved are loaded as they were exactly if all texts among them are plain. -/
theorem load_after_save_iff (c : Configuration) (place : List String)
    (hs : s.Same c.settings) (hlines : ∀ t ∈ c.texts, '\n' ∉ t.toList)
    (hfile : script.store.Accepts file place) :
    (∃ loaded, (script.follow s do
        saveSettings Script.host file
        loadSettings Script.host file).1 = (.ok false, loaded) ∧ loaded.Same s) ↔
      ∀ t ∈ c.texts, Toml.Plain t.toList := by
  rw [← parse?_iff hlines, follow_save_load hs hfile]
  have hsame (loaded : Settings) : loaded.Same s ↔ loaded.Same c.settings := by
    simp only [Settings.Same, hs _]
  cases Settings.parse? (String.ofList (Toml.document c.lines)) with
  | none => simp
  | some loaded => simp [hsame]

theorem accepts_config : ({} : Store).Accepts ⟨false, ["config.toml"]⟩ ["config.toml"] :=
  ⟨rfl, rfl, .inl rfl⟩

/-- Folders of another project, with letters that are not plain ASCII and a tab. -/
def shared : Configuration where
  root := "Prüfstand"
  mode := "draft"
  ignoreVendor := true
  rootOnly := false
  detailed := true
  vendorFolder := "/srv/ABB lib"
  programFolder := "'#' = [x]"
  libraries := ["../lib", "", "a\tb"]

theorem shared_loaded_again :
    ∃ loaded, (({} : Script).follow shared.settings do
        saveSettings Script.host ⟨false, ["config.toml"]⟩
        loadSettings Script.host ⟨false, ["config.toml"]⟩).1 = (.ok false, loaded) ∧
      loaded.Same shared.settings :=
  (load_after_save_iff shared ["config.toml"] (fun _ => rfl) (by decide) accepts_config).mpr
    (by decide)

/-- A folder with a backslash in its name. -/
def backslashed : Configuration :=
  { shared with programFolder := "C:\\new" }

/-- The backslash and the letter behind it are loaded as a line end. -/
theorem backslash_loaded_as_escape :
    ∃ loaded, (({} : Script).follow backslashed.settings do
        saveSettings Script.host ⟨false, ["config.toml"]⟩
        loadSettings Script.host ⟨false, ["config.toml"]⟩).1 = (.ok false, loaded) ∧
      (loaded.get? "program_dir").bind Value.text? = some "C:\new" ∧
      backslashed.settings.get? "program_dir" = some (.text "C:\\new") := by
  rw [follow_save_load (fun _ => rfl) accepts_config]
  have hread : (Toml.statements? ((Toml.document backslashed.lines).length + 1) {}
      (Toml.document backslashed.lines)).bind
        (fun q => (q.data.get? "program_dir").bind Value.text?) = some "C:\new" := by
    decide +kernel
  obtain ⟨q, hq, hget⟩ := Option.bind_eq_some_iff.mp hread
  rw [parse?_lines (by decide), hq]
  exact ⟨_, rfl, by rw [Settings.get?_ofValue, hget], rfl⟩

end Menu

end SattLine
