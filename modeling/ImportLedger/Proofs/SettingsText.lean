import ImportLedger.Config.File
import ImportLedger.Proofs.Encoding
import ImportLedger.Proofs.TomlTables
import ImportLedger.Proofs.TomlValues
import ImportLedger.Proofs.UnseenWrites

/-! What a configuration file says. Each setting is read for itself: in whatever order the file
gives some of them, and whatever else it holds, those have the values given and all others their
defaults. -/

namespace ImportLedger.Config

open Toml

def settingNames : List String :=
  ["root", "exclude_dirs", "include_dev", "report_file", "summary", "color"]

/-- Some of the settings with values. -/
structure Given where
  root : Option String := none
  excludedDirectories : Option (List String) := none
  includeDev : Option Bool := none
  reportFile : Option Bool := none
  summary : Option Bool := none
  color : Option ColorChoice := none

namespace Given

def entries (given : Given) : Entries :=
  (given.root.map fun path => ("root", .string path)).toList ++
    (given.excludedDirectories.map fun names => ("exclude_dirs", .array (names.map .string))).toList ++
    (given.includeDev.map fun b => ("include_dev", .boolean b)).toList ++
    (given.reportFile.map fun b => ("report_file", .boolean b)).toList ++
    (given.summary.map fun b => ("summary", .boolean b)).toList ++
    (given.color.map fun choice => ("color", .string choice.name)).toList

/-- The configuration with these values, and the defaults for all other settings. -/
def config (given : Given) : Config :=
  let default : Config := {}
  { root := given.root.getD default.root
    excludedDirectories := given.excludedDirectories.getD default.excludedDirectories
    includeDev := given.includeDev.getD default.includeDev
    reportFile := given.reportFile.getD default.reportFile
    summary := given.summary.getD default.summary
    color := given.color.getD default.color }

theorem nodup_entries (given : Given) : (given.entries.map (·.1)).Nodup := by
  have hkey {α : Type} (o : Option α) (key : String) (f : α → Toml) :
      ((o.map fun a => (key, f a)).toList.map (·.1)).Sublist [key] := by
    cases o <;> simp
  have hsub : (given.entries.map (·.1)).Sublist settingNames := by
    simp only [entries, List.map_append]
    exact (((((hkey _ _ _).append (hkey _ _ _)).append (hkey _ _ _)).append (hkey _ _ _)).append
      (hkey _ _ _)).append (hkey _ _ _)
  exact hsub.nodup (by decide)

theorem exists_writtenValue {given : Given} {e : String × Toml} (h : e ∈ given.entries) :
    ∃ text, WrittenValue e.2 text := by
  have hstring (s : String) : ∃ text, WrittenValue (.string s) text :=
    ⟨_, .string (basicString_escaped s.toList)⟩
  have hflag (b : Bool) : ∃ text, WrittenValue (.boolean b) text := by
    cases b with
    | true => exact ⟨_, .yes⟩
    | false => exact ⟨_, .no⟩
  have harray (items : List String) : ∃ text, WrittenValue (.array (items.map .string)) text := by
    obtain ⟨text, h⟩ := exists_writtenItems items
    exact ⟨_, .array h⟩
  simp only [entries, List.mem_append, Option.mem_toList, Option.map_eq_some_iff] at h
  rcases h with ((((⟨s, -, rfl⟩ | ⟨items, -, rfl⟩) | ⟨b, -, rfl⟩) | ⟨b, -, rfl⟩) | ⟨b, -, rfl⟩) |
    ⟨choice, -, rfl⟩
  · exact hstring s
  · exact harray items
  · exact hflag b
  · exact hflag b
  · exact hflag b
  · exact hstring choice.name

end Given

/-- One line of a configuration file: a setting, or a value for a name that is none. -/
inductive FileLine : List Char → Key × Toml → Prop
  | setting {name : String} {value : Toml} {text : List Char} (hname : name ∈ settingNames)
    (h : WrittenLine name value text) : FileLine text (⟨[], name⟩, value)
  | unknown {text : List Char} {line : Key × Toml} (hname : line.1.first ∉ settingNames)
    (h : Gives text line) : FileLine text line

theorem isBare_of_mem_settingNames {name : String} (h : name ∈ settingNames) : IsBare name := by
  simp only [settingNames, List.mem_cons, List.not_mem_nil, or_false] at h
  rcases h with rfl | rfl | rfl | rfl | rfl | rfl <;> simp [IsBare, Reader.isBareKey]

theorem FileLine.gives {text : List Char} {line : Key × Toml} (h : FileLine text line) :
    Gives text line := by
  cases h with
  | setting hname h => exact h.gives (isBare_of_mem_settingNames hname)
  | unknown hname h => exact h

theorem setting_of_lookup {α : Type} {entries : Entries} {key : String} {given : Option α}
    {write : α → Toml} {read : Toml → Option α} (hread : ∀ a, read (write a) = some a)
    (h : entries.lookup key = given.map write) (default : α) :
    setting entries key default read = some (given.getD default) := by
  rw [setting, h]
  cases given with
  | none => rfl
  | some a => exact hread a

theorem texts?_array (names : List String) : texts? (.array (names.map .string)) = some names := by
  rw [texts?]
  induction names with
  | nil => rfl
  | cons name names ih =>
    rw [List.map_cons, List.mapM_cons, ih]
    rfl

theorem color?_name (choice : ColorChoice) : color? (.string choice.name) = some choice := by
  cases choice <;> rfl

theorem lookup_toList {α : Type} (o : Option α) (key name : String) (f : α → Toml) :
    ((o.map fun a => (key, f a)).toList).lookup name = if name = key then o.map f else none := by
  cases o with
  | none => simp
  | some a =>
    rw [Option.map_some, Option.toList_some, lookup_cons_eq]
    rfl

theorem ofEntries?_of_lookup {given : Given} {entries : Entries}
    (h : ∀ name ∈ settingNames, entries.lookup name = given.entries.lookup name) :
    ofEntries? entries = some given.config := by
  simp only [Given.entries, List.lookup_append, lookup_toList] at h
  have htext (s : String) : text? (.string s) = some s := rfl
  have hflag (b : Bool) : flag? (.boolean b) = some b := rfl
  have hroot := setting_of_lookup htext (by simpa using h "root" (by decide))
  have hexcluded := setting_of_lookup texts?_array
    (by simpa using h "exclude_dirs" (by decide))
  have hdev := setting_of_lookup hflag (by simpa using h "include_dev" (by decide))
  have hreport := setting_of_lookup hflag (by simpa using h "report_file" (by decide))
  have hsummary := setting_of_lookup hflag (by simpa using h "summary" (by decide))
  have hcolor := setting_of_lookup color?_name (by simpa using h "color" (by decide))
  rw [ofEntries?]
  simp only [hroot, hexcluded, hdev, hreport, hsummary, hcolor]
  rfl

/-- Whether a line is about a setting. -/
def isSettingLine (line : Key × Toml) : Bool := decide (line.1.first ∈ settingNames)

variable {given : Given} {lines : List (Key × Toml)} {text : String}

/-- Every choice of settings can be written, in every order and with other lines between them. -/
theorem exists_lines
    (hgiven : (lines.filter isSettingLine).Perm (given.entries.map plainLine))
    (hother : ∀ line ∈ lines, isSettingLine line = false → ∃ text, Gives text line) :
    ∃ text, Lines FileLine text lines := by
  have hline : ∀ line ∈ lines, ∃ text, FileLine text line := by
    intro line hl
    by_cases hs : isSettingLine line = true
    · obtain ⟨e, he, rfl⟩ :=
        List.mem_map.mp (hgiven.mem_iff.mp (List.mem_filter.mpr ⟨hl, hs⟩))
      obtain ⟨text, h⟩ := exists_writtenLine (Given.exists_writtenValue he) e.1
      exact ⟨text, .setting (of_decide_eq_true hs) h⟩
    · rw [Bool.not_eq_true] at hs
      obtain ⟨text, h⟩ := hother line hl hs
      exact ⟨text, .unknown (of_decide_eq_false hs) h⟩
  clear hgiven hother
  induction lines with
  | nil => exact ⟨[], .nil⟩
  | cons line lines ih =>
    obtain ⟨first, hfirst⟩ := hline line List.mem_cons_self
    obtain ⟨later, hlater⟩ := ih fun l hl => hline l (List.mem_cons_of_mem _ hl)
    have hend : Reader.afterNewline? ('\n' :: later) = some later := rfl
    exact ⟨_, .cons hfirst hend hlater⟩

theorem ofText?_of_lines (hlines : Lines FileLine text.toList lines)
    (hgiven : (lines.filter isSettingLine).Perm (given.entries.map plainLine))
    (hother : (buildInline (lines.filter (!isSettingLine ·))).isSome = true) :
    Config.ofText? text = some given.config := by
  obtain ⟨settings, hsettings, hperm⟩ := buildInline_of_perm given.nodup_entries hgiven
  obtain ⟨unknown, hunknown⟩ := Option.isSome_iff_exists.mp hother
  obtain ⟨entries, hentries, hlookup, -⟩ :=
    buildInline_of_split (fun name => decide (name ∈ settingNames)) hsettings hunknown
  have hread : Toml.ofText? text = some entries := by
    rw [Toml.ofText?_of_lines (hlines.mono fun _ _ => FileLine.gives), build_entries, hentries]
  rw [ofText?, hread]
  refine ofEntries?_of_lookup fun name hname => ?_
  rw [hlookup name (by simpa using hname), lookup_perm given.nodup_entries hperm.symm]

/-- Each setting is read for itself. -/
theorem load_of_lines {disk : Disk} {path : String} (hlines : Lines FileLine text.toList lines)
    (hgiven : (lines.filter isSettingLine).Perm (given.entries.map plainLine))
    (hother : (buildInline (lines.filter (!isSettingLine ·))).isSome = true)
    (hfile : disk.readFile path = .ok (Text.Utf8.encode text.toList)) :
    ofFile disk path = .ok given.config ∧
      ∀ root, Path.join root fileName = path →
        load disk root = .ok { given.config with root := root } := by
  have hread : disk.readText path = .ok text := by
    rw [Disk.readText, hfile]
    simp [bind, Except.bind, Text.Utf8.decode?_encode]
  have hconfig : ofFile disk path = .ok given.config := by
    rw [ofFile, hread]
    simp only [ofText?_of_lines hlines hgiven hother]
  refine ⟨hconfig, ?_⟩
  rintro root rfl
  have hisFile : disk.isFile (Path.join root fileName) = true :=
    Disk.isFile_iff.mpr ⟨_, hfile⟩
  simp only [load, hisFile, if_true, hconfig]
  rfl

/-- A file with two settings and a line that means nothing. -/
def mixedText : String :=
  "exclude_dirs = [\"out\", ]\nverbose = true\nroot = \"\\u0022ä\\u000a\"\n"

def mixedLines : List (Key × Toml) :=
  [plainLine ("exclude_dirs", .array [.string "out"]), plainLine ("verbose", .boolean true),
    plainLine ("root", .string "\"ä\n")]

def mixedSettings : Given := { root := some "\"ä\n", excludedDirectories := some ["out"] }

theorem lines_mixedText : Lines FileLine mixedText.toList mixedLines := by
  have hgap : IsGap [] := by simp [IsGap]
  have hspace : IsGap [' '] := by simp [IsGap]
  have hblank : ∀ c ∈ [' '], Reader.isSpace c = true := by simp [Reader.isSpace]
  have hbare : IsBare "verbose" := by simp [IsBare, Reader.isBareKey]
  have hout : WrittenItems ["out"] ([] ++ '"' :: (_ ++ ([] ++ ',' :: ([' '] ++ [']'])))) :=
    .cons hgap (basicString_escaped "out".toList) hgap (.nil hspace)
  have hexcluded : WrittenLine "exclude_dirs" (.array [.string "out"]) _ :=
    .intro hblank hblank (.array hout)
  have hverbose : WrittenLine "verbose" (.boolean true) _ := .intro hblank hblank .yes
  have hroot : WrittenLine "root" (.string "\"ä\n") _ :=
    .intro hblank hblank (.string (basicString_escaped "\"ä\n".toList))
  have hend (later : List Char) : Reader.afterNewline? ('\n' :: later) = some later := rfl
  have hlast : Lines FileLine _ _ :=
    .cons (FileLine.setting (by decide) hroot) (hend _) .nil
  have hmiddle : Lines FileLine _ _ :=
    .cons (FileLine.unknown (by decide) (hverbose.gives hbare)) (hend _) hlast
  have hlines : Lines FileLine _ _ :=
    .cons (FileLine.setting (by decide) hexcluded) (hend _) hmiddle
  exact hlines

def mixedDisk : Disk :=
  ⟨.directory [(fileName, .file (Text.Utf8.encode mixedText.toList))], []⟩

theorem readFile_mixedDisk :
    mixedDisk.readFile (Path.join "." fileName) = .ok (Text.Utf8.encode mixedText.toList) := by
  rw [Disk.readFile, mixedDisk, Disk.lookup_config_here _ (by simp)]
  rfl

theorem load_of_lines_mixed :
    ofFile mixedDisk "./depscan.toml" =
        .ok { root := "\"ä\n", excludedDirectories := ["out"] } ∧
      load mixedDisk "." = .ok { root := ".", excludedDirectories := ["out"] } := by
  have hgiven : (mixedLines.filter isSettingLine).Perm (mixedSettings.entries.map plainLine) :=
    .swap _ _ []
  have hother : (buildInline (mixedLines.filter (!isSettingLine ·))).isSome = true := rfl
  have hload := load_of_lines lines_mixedText hgiven hother readFile_mixedDisk
  exact ⟨hload.1, hload.2 "." rfl⟩

end ImportLedger.Config
