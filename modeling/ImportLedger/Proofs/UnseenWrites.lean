import ImportLedger.Proofs.Independence
import ImportLedger.Proofs.PathNames
import ImportLedger.Proofs.RunSteps

/-! Files that no run reads. A file whose name is none of a source file, nor that of the manifest or
of the configuration file, can be written without changing what a run sees. -/

namespace ImportLedger

namespace FileTree

theorem NoLink.put {tree : FileTree} (h : tree.NoLink) {place : List String}
    (hw : Writable tree place) (new : Text.Utf8.Bytes) : (tree.put place (file new)).NoLink := by
  intro other target ha
  by_cases hne : other = place
  · rw [hne, at?_put_self] at ha
    cases ha
  · rcases at?_put_or_directory hw hne new with he | ⟨_, _, _, -, -, hd⟩
    · exact h other target (he ▸ ha)
    · rw [hd] at ha
      cases ha

end FileTree

namespace SourceFile

open FileTree (Writable)

variable {excluded : List String}

theorem ofEntries_put_of_lookup {entries : FileTree.Entries} {name : String}
    {child child' : FileTree} (hl : entries.lookup name = some child)
    (he : ofEntry excluded name child' = ofEntry excluded name child) :
    ofEntries excluded (entries.put name child') = ofEntries excluded entries := by
  induction entries with
  | nil => cases hl
  | cons e rest ih =>
    obtain ⟨n, node⟩ := e
    by_cases hn : n = name
    · subst hn
      obtain rfl : node = child := by simpa using hl
      rw [FileTree.Entries.put, if_pos rfl, ofEntries, ofEntries, he]
    · have hb : (name == n) = false := beq_eq_false_iff_ne.mpr (Ne.symm hn)
      rw [FileTree.Entries.put, if_neg hn, ofEntries, ofEntries,
        ih (by simpa only [List.lookup_cons, hb] using hl)]

theorem ofEntries_put_of_vacant {entries : FileTree.Entries} {name : String} {node : FileTree}
    (hl : entries.lookup name = none) (he : ofEntry excluded name node = []) :
    ofEntries excluded (entries.put name node) = ofEntries excluded entries := by
  induction entries with
  | nil => simp [FileTree.Entries.put, ofEntries, he]
  | cons e rest ih =>
    obtain ⟨n, child⟩ := e
    have hn : name ≠ n := by
      rintro rfl
      simp at hl
    have hb : (name == n) = false := beq_eq_false_iff_ne.mpr hn
    rw [FileTree.Entries.put, if_neg (Ne.symm hn), ofEntries, ofEntries,
      ih (by simpa only [List.lookup_cons, hb] using hl)]

theorem ofEntry_directory_congr {inner inner' : FileTree.Entries} (name : String)
    (h : ofEntries excluded inner' = ofEntries excluded inner) :
    ofEntry excluded name (.directory inner') = ofEntry excluded name (.directory inner) := by
  rw [ofEntry, ofEntry, h]

/-- A file that is none of a source is no part of what a search finds. -/
theorem ofEntries_put_other {node : FileTree} {rest : List String} (hw : Writable node rest)
    (hlast : ∀ name, rest.getLast? = some name → Language.ofPath? name = none)
    (new : Text.Utf8.Bytes) :
    ofEntries excluded (node.put rest (.file new)).entries = ofEntries excluded node.entries := by
  have hfile {name : String} (h : Language.ofPath? name = none) (content : Text.Utf8.Bytes) :
      ofEntry excluded name (.file content) = [] := by
    rw [ofEntry, h]
    rfl
  -- On the way to the file each directory changes in one entry, the one that leads on.
  induction hw with
  | present old => rfl
  | @vacant entries name hl => exact ofEntries_put_of_vacant hl (hfile (hlast name rfl) new)
  | @inside entries name child rest hl hw ih =>
    rw [FileTree.put_cons hl, FileTree.entries_directory, FileTree.entries_directory]
    refine ofEntries_put_of_lookup hl ?_
    cases hw with
    | present old => exact (hfile (hlast name rfl) new).trans (hfile (hlast name rfl) old).symm
    | vacant _ => exact ofEntry_directory_congr name (ih fun last h => hlast last (by simpa using h))
    | inside _ _ =>
      exact ofEntry_directory_congr name (ih fun last h => hlast last (by simpa using h))

end SourceFile

namespace Disk

open FileTree (Writable)

variable {disk : Disk} {place : List String}

theorem directory_withContent (hw : Writable disk.tree place)
    (hlast : ∀ name, place.getLast? = some name → Language.ofPath? name = none)
    {top : List String} {entries : FileTree.Entries}
    (hd : disk.tree.at? top = some (.directory entries)) (new : Text.Utf8.Bytes) :
    ∃ entries', (disk.withContent place new).tree.at? top = some (.directory entries') ∧
      ∀ excluded, SourceFile.ofEntries excluded entries' = SourceFile.ofEntries excluded entries := by
  have hne : top ≠ place := by
    rintro rfl
    obtain ⟨old, he⟩ := hw.eq_file hd
    cases he
  rcases FileTree.at?_put_or_directory hw hne new with he | ⟨rest, inner, inner', rfl, hd', he⟩
  · exact ⟨entries, he.trans hd, fun _ => rfl⟩
  · have hput := FileTree.at?_put_append hd rest (.file new)
    have hinner : FileTree.directory inner' = (FileTree.directory entries).put rest (.file new) :=
      Option.some.inj (he.symm.trans hput)
    refine ⟨inner', he, fun excluded => ?_⟩
    have hsame := @SourceFile.ofEntries_put_other excluded _ _ (hw.of_append hd)
      (fun name h => hlast name (by simp [h])) new
    rw [← hinner] at hsame
    exact hsame

theorem searched_of_directory {root : String} {top : List String} {entries : FileTree.Entries}
    (hr : disk.resolve .inspect root = .ok (.found top))
    (hd : disk.tree.at? top = some (.directory entries)) :
    disk.searched root = .ok (.directory entries) :=
  searched_of_lookup (lookup_of_resolve hr hd) (by simp)

theorem findSources_withContent_other (hw : Writable disk.tree place)
    (hlast : ∀ name, place.getLast? = some name → Language.ofPath? name = none)
    {root : String} {top : List String} {entries : FileTree.Entries}
    (hr : disk.resolve .inspect root = .ok (.found top))
    (hd : disk.tree.at? top = some (.directory entries)) (new : Text.Utf8.Bytes)
    (excluded : List String) :
    findSources (disk.withContent place new) root excluded = findSources disk root excluded := by
  obtain ⟨entries', hd', hsame⟩ := directory_withContent hw hlast hd new
  have hr' := resolve_withContent_of_writable hw new hr
  rw [findSources_eq, findSources_eq, searched_of_directory hr hd, searched_of_directory hr' hd',
    Except.map, Except.map, SourceFile.ofStart_directory, SourceFile.ofStart_directory, hsame]

/-- The name at the end of a path keeps it apart from places with another one. -/
theorem resolve_join_ne {base name last : String} {parent : List String}
    (hfree : disk.tree.NoLink) (hname : Path.isEntryName name = true) (hne : name ≠ last)
    (purpose : Purpose) :
    disk.resolve purpose (Path.join base name) ≠ .ok (.found (parent ++ [last])) := by
  intro h
  obtain ⟨other, _, -, he | he, -⟩ := resolve_join hfree hname h
  · exact hne (List.cons.inj (List.append_inj' (Target.found.inj he) rfl).2).1.symm
  · cases he

theorem readFile_of_withContent (hw : Writable disk.tree place) {path : String}
    {new content : Text.Utf8.Bytes}
    (h : (disk.withContent place new).readFile path = .ok content)
    (hne : (disk.withContent place new).resolve .read path ≠ .ok (.found place)) :
    disk.readFile path = .ok content := by
  obtain ⟨other, hr, ha⟩ := readFile_ok h
  have hother : other ≠ place := fun he => hne (he ▸ hr)
  have hr' := resolve_of_withContent hw hr fun he => hother (Target.found.inj he)
  rcases FileTree.at?_put_or_directory hw hother new with he | ⟨_, _, _, -, -, hd⟩
  · rw [readFile, lookup_of_resolve hr' (he.symm.trans ha)]
    rfl
  · cases hd.symm.trans ha

theorem isFile_iff {path : String} :
    disk.isFile path = true ↔ ∃ content, disk.readFile path = .ok content := by
  rw [isFile, readFile]
  cases disk.lookup .read path with
  | error cause => simp [bind, Except.bind]
  | ok node => cases node <;> simp [bind, Except.bind]

variable {parent : List String} {last : String}

theorem isFile_withContent (hfree : disk.tree.NoLink) (hw : Writable disk.tree (parent ++ [last]))
    {name : String} (hname : Path.isEntryName name = true) (hne : name ≠ last) (base : String)
    (new : Text.Utf8.Bytes) :
    (disk.withContent (parent ++ [last]) new).isFile (Path.join base name) =
      disk.isFile (Path.join base name) := by
  rw [Bool.eq_iff_iff, isFile_iff, isFile_iff]
  constructor
  · rintro ⟨content, h⟩
    exact ⟨content, readFile_of_withContent hw h (resolve_join_ne (hfree.put hw new) hname hne _)⟩
  · rintro ⟨content, h⟩
    exact ⟨content, readFile_withContent hw h (resolve_join_ne hfree hname hne _) new⟩

end Disk

namespace Config

variable {disk : Disk} {place parent : List String} {last : String} {config : Config}

theorem readFile_of_ofFile {path : String} (h : ofFile disk path = .ok config) :
    ∃ content, disk.readFile path = .ok content := by
  cases hr : disk.readFile path with
  | error cause => simp [ofFile, Disk.readText, hr, bind, Except.bind] at h
  | ok content => exact ⟨content, rfl⟩

theorem ofFile_withContent (hw : FileTree.Writable disk.tree place) {path : String}
    (h : ofFile disk path = .ok config) (hne : disk.resolve .read path ≠ .ok (.found place))
    (new : Text.Utf8.Bytes) : ofFile (disk.withContent place new) path = .ok config := by
  obtain ⟨content, hr⟩ := readFile_of_ofFile h
  rw [ofFile, Disk.readText, hr] at h
  rw [ofFile, Disk.readText, Disk.readFile_withContent hw hr hne new]
  exact h

theorem load_withContent (hfree : disk.tree.NoLink)
    (hw : FileTree.Writable disk.tree (parent ++ [last])) (hlast : fileName ≠ last) {root : String}
    (h : load disk root = .ok config) (new : Text.Utf8.Bytes) :
    load (disk.withContent (parent ++ [last]) new) root = .ok config := by
  have hname : Path.isEntryName fileName = true := by decide
  rw [load] at h ⊢
  rw [Disk.isFile_withContent hfree hw hname hlast]
  split at h
  · obtain ⟨read, hread, h⟩ := ok_of_bind h
    rw [if_pos ‹_›, ofFile_withContent hw hread (Disk.resolve_join_ne hfree hname hlast _) new]
    exact h
  · rw [if_neg ‹_›]
    exact h

end Config

variable {disk : Disk} {parent : List String} {last : String}

/-- Without links the root of a scan that finds a manifest is a directory. -/
theorem Scan.root_of_readManifest (hfree : disk.tree.NoLink) {config : Config}
    {sets : DependencySets} {files : List SourceFile} (hs : readManifest disk config = .ok sets)
    (hf : findSources disk config.root config.excludedDirectories = .ok files) :
    ∃ top entries, disk.resolve .inspect config.root = .ok (.found top) ∧
      disk.tree.at? top = some (.directory entries) := by
  obtain ⟨lines, hl, -⟩ := ok_of_bind hs
  have hread := ok_of_mapError hl
  unfold readLines at hread
  split at hread
  · obtain ⟨_, hr, -⟩ := Disk.readFile_ok ‹_›
    obtain ⟨top, entries, hd, -, hroot⟩ := Disk.resolve_join hfree (by decide) hr
    refine ⟨top, entries, hroot ?_, hd⟩
    -- No search starts from the empty path.
    intro hempty
    obtain ⟨_, hstart, -⟩ := findSources_ok_iff.mp hf
    obtain ⟨_, _, hr, -⟩ := Disk.searched_ok hstart
    rw [hempty] at hr
    cases hr
  · cases hread

/-- A scan that has gone well does so again, with the same report. -/
theorem scan_withContent_other (hfree : disk.tree.NoLink)
    (hw : FileTree.Writable disk.tree (parent ++ [last])) (hmanifest : "package.json" ≠ last)
    (hsource : Language.ofPath? last = none) {config : Config} {r : Report}
    (h : scan disk config = .ok r) (new : Text.Utf8.Bytes) :
    scan (disk.withContent (parent ++ [last]) new) config = .ok r := by
  have hname : Path.isEntryName "package.json" = true := by decide
  obtain ⟨sets, files, hs, hf, hr⟩ := scan_ok h
  have hs' := Scan.readManifest_withContent hs hw
    (Disk.resolve_join_ne hfree hname hmanifest _) new
  obtain ⟨top, entries, hroot, hd⟩ := Scan.root_of_readManifest hfree hs hf
  have hf' : findSources (disk.withContent (parent ++ [last]) new) config.root
      config.excludedDirectories = .ok files := by
    rw [Disk.findSources_withContent_other hw ?_ hroot hd, hf]
    intro name hn
    obtain rfl : last = name := by simpa using hn
    exact hsource
  obtain ⟨r', hscan, hr'⟩ := scan_isOk config hs' hf'
  obtain rfl := Except.ok.inj (hr'.symm.trans hr)
  exact hscan

end ImportLedger
