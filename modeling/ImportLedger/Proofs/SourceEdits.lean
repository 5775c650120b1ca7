import ImportLedger.Proofs.SourceMembers
import ImportLedger.Proofs.StableSort

/-! A source file that is given another content. The search finds the same files in the same
order, that one with its new content. -/

namespace ImportLedger

open Text.Utf8 (Bytes)

namespace SourceFile

/-- A found file, with another content if it is the one at the given path below the root. -/
def withContent (relative : List String) (content : Bytes) (file : SourceFile) : SourceFile :=
  if file.relative = relative then { file with content } else file

theorem relative_withContent (relative : List String) (content : Bytes) (file : SourceFile) :
    (file.withContent relative content).relative = file.relative := by
  by_cases h : file.relative = relative
  · rw [withContent, if_pos h]
  · rw [withContent, if_neg h]

theorem withContent_of_ne {relative : List String} {content : Bytes} {file : SourceFile}
    (h : file.relative ≠ relative) : file.withContent relative content = file := if_neg h

theorem withContent_below (name : String) (relative : List String) (content : Bytes)
    (file : SourceFile) :
    (file.below name).withContent (name :: relative) content =
      (file.withContent relative content).below name := by
  by_cases h : file.relative = relative
  · simp [withContent, below, h]
  · simp [withContent, below, h]

variable {excluded : List String} {old new : Bytes}

mutual

theorem ofEntry_put {name : String} {node : FileTree} {rest : List String}
    (hw : node.wellFormed = true) (ha : node.at? rest = some (.file old)) :
    ofEntry excluded name (node.put rest (.file new)) =
      (ofEntry excluded name node).map (withContent (name :: rest) new) := by
  cases node with
  | file content =>
    cases rest with
    | nil =>
      rw [FileTree.put, ofEntry, ofEntry]
      split
      · simp [withContent]
      · rfl
    | cons n rest => simp [FileTree.at?] at ha
  | link target => cases rest <;> simp [FileTree.at?] at ha
  | directory entries =>
    cases rest with
    | nil => simp [FileTree.at?] at ha
    | cons n rest =>
      obtain ⟨child, hl, hc⟩ := FileTree.at?_cons_eq_some.mp ha
      rw [FileTree.put_cons hl, ofEntry, ofEntry]
      split
      · rfl
      · have he := ofEntries_put (FileTree.wellFormedEntries_entries hw) hl hc
        rw [he, List.map_map, List.map_map]
        exact List.map_congr_left fun file _ => (withContent_below name (n :: rest) new file).symm

theorem ofEntries_put {entries : List (String × FileTree)} {name : String} {child : FileTree}
    {rest : List String} (hw : FileTree.wellFormedEntries entries = true)
    (hl : entries.lookup name = some child) (hc : child.at? rest = some (.file old)) :
    ofEntries excluded (FileTree.Entries.put entries name (child.put rest (.file new))) =
      (ofEntries excluded entries).map (withContent (name :: rest) new) := by
  match entries with
  | [] => simp at hl
  | (other, node) :: more =>
    obtain ⟨hn, hfresh, hnode, hmore⟩ := FileTree.wellFormedEntries_cons.mp hw
    by_cases he : other = name
    · subst he
      obtain rfl : node = child := by simpa using hl
      -- Nothing that follows has this name, so no other file has this path.
      have hrest : (ofEntries excluded more).map (withContent (other :: rest) new) =
          ofEntries excluded more := by
        refine (List.map_congr_left fun file hf => ?_).trans (List.map_id _)
        obtain ⟨n, hin, rest', hr⟩ := (relative_of_mem_ofEntries hmore hf).1
        refine withContent_of_ne fun h => hfresh ?_
        rw [hr] at h
        exact (List.cons.inj h).1 ▸ hin
      rw [FileTree.Entries.put, if_pos rfl, ofEntries, ofEntries, List.map_append, hrest,
        ofEntry_put hnode hc]
    · have hl' : more.lookup name = some child := by
        have hb : (name == other) = false := beq_eq_false_iff_ne.mpr (Ne.symm he)
        simpa only [List.lookup_cons, hb] using hl
      have hhead : (ofEntry excluded other node).map (withContent (name :: rest) new) =
          ofEntry excluded other node := by
        refine (List.map_congr_left fun file hf => ?_).trans (List.map_id _)
        obtain ⟨rest', hr⟩ := (relative_of_mem_ofEntry hn hnode hf).1
        refine withContent_of_ne fun h => he ?_
        rw [hr] at h
        exact (List.cons.inj h).1
      rw [FileTree.Entries.put, if_neg he, ofEntries, ofEntries, List.map_append, hhead,
        ofEntries_put hmore hl' hc]

end

theorem ofStart_directory (root : String) (entries : FileTree.Entries) :
    ofStart root excluded (.directory entries) = sortBy le (ofEntries excluded entries) := rfl

theorem ofStart_put {root : String} {start : FileTree} {relative : List String}
    (hw : start.wellFormed = true) (ha : start.at? relative = some (.file old)) :
    ofStart root excluded (start.put relative (.file new)) =
      (ofStart root excluded start).map (withContent relative new) := by
  cases start with
  | file content =>
    cases relative with
    | nil =>
      rw [FileTree.put, ofStart, ofStart]
      split
      · simp [withContent]
      · rfl
    | cons name rest => simp [FileTree.at?] at ha
  | link target => cases relative <;> simp [FileTree.at?] at ha
  | directory entries =>
    cases relative with
    | nil => simp [FileTree.at?] at ha
    | cons name rest =>
      obtain ⟨child, hl, hc⟩ := FileTree.at?_cons_eq_some.mp ha
      have hle (a b : SourceFile) :
          le (a.withContent (name :: rest) new) (b.withContent (name :: rest) new) = le a b := by
        rw [le, le, relative_withContent, relative_withContent]
      have he : ofEntries excluded (FileTree.Entries.put entries name (child.put rest (.file new))) =
          (ofEntries excluded entries).map (withContent (name :: rest) new) :=
        ofEntries_put (FileTree.wellFormedEntries_entries hw) hl hc
      rw [FileTree.put_cons hl, ofStart_directory, ofStart_directory, FileTree.entries_directory, he,
        sortBy_map hle]

theorem at?_of_mem_ofStart {root : String} {start : FileTree} {file : SourceFile}
    (hw : start.wellFormed = true) (h : file ∈ ofStart root excluded start) :
    start.at? file.relative = some (.file file.content) := by
  cases start with
  | file content =>
    rw [ofStart] at h
    split at h
    · obtain rfl := List.mem_singleton.mp h
      rfl
    · simp at h
  | link target => simp [ofStart, FileTree.entries, ofEntries, sortBy] at h
  | directory entries =>
    have hm := (sortBy_perm le (ofEntries excluded entries)).mem_iff.mp h
    exact ((mem_ofEntries_iff (FileTree.wellFormedEntries_entries hw)).mp hm).1

end SourceFile

namespace Disk

variable {disk : Disk} {root : String} {start : FileTree} {old : Bytes}

theorem wellFormed_searched (hw : disk.tree.wellFormed = true)
    (h : disk.searched root = .ok start) : start.wellFormed = true := by
  obtain ⟨place, node, -, ha, hstart⟩ := searched_ok h
  have hn := FileTree.wellFormed_at? hw ha
  rcases hstart with rfl | rfl
  · exact hn
  · rw [FileTree.wellFormed]
    exact FileTree.wellFormedEntries_entries hn

theorem at?_of_searched {top relative : List String} (h : disk.searched root = .ok start)
    (ht : disk.resolve .read root = .ok (.found top))
    (ha : start.at? relative = some (.file old)) :
    disk.tree.at? (top ++ relative) = some (.file old) := by
  obtain ⟨place, node, hr, hn, hstart⟩ := searched_ok h
  obtain rfl : place = top := Target.found.inj (Except.ok.inj (hr.symm.trans ht))
  rw [FileTree.at?_append, hn]
  rcases hstart with rfl | rfl
  · exact ha
  · cases relative with
    | nil => simp [FileTree.at?] at ha
    | cons name rest =>
      obtain ⟨child, hl, hc⟩ := FileTree.at?_cons_eq_some.mp ha
      exact FileTree.at?_cons_eq_some.mpr ⟨child, hl, hc⟩

theorem searched_withContent {top relative : List String} (h : disk.searched root = .ok start)
    (ht : disk.resolve .read root = .ok (.found top))
    (ha : start.at? relative = some (.file old)) (new : Bytes) :
    (disk.withContent (top ++ relative) new).searched root =
      .ok (start.put relative (.file new)) := by
  have hold := at?_of_searched h ht ha
  cases hl : disk.lookup .inspect root with
  | error cause => simp [searched, hl] at h
  | ok first =>
    by_cases hlink : ∃ target, first = .link target
    · obtain ⟨target, rfl⟩ := hlink
      obtain ⟨other, node, hr, hn, -⟩ := searched_ok h
      obtain rfl : other = top := Target.found.inj (Except.ok.inj (hr.symm.trans ht))
      obtain rfl : FileTree.directory node.entries = start := by
        simpa [searched, hl, lookup_of_resolve hr hn, Except.map] using h
      rw [searched, lookup_withContent_of_link hold hl]
      dsimp only
      rw [lookup_withContent_append hold hr hn]
      cases relative with
      | nil => simp [FileTree.at?] at ha
      | cons name rest =>
        obtain ⟨child, hchild, -⟩ := FileTree.at?_cons_eq_some.mp ha
        have hchild' : node.entries.lookup name = some child := hchild
        rw [FileTree.put_cons hchild, FileTree.put_cons hchild']
        rfl
    · have hlink' : ∀ target, first ≠ .link target := fun target he => hlink ⟨target, he⟩
      obtain rfl : first = start := Except.ok.inj ((searched_of_lookup hl hlink').symm.trans h)
      obtain ⟨place, hp, hn⟩ := lookup_ok hl
      have hr := resolve_read_of_inspect hp (by simpa [hn] using hlink')
      obtain rfl : place = top := Target.found.inj (Except.ok.inj (hr.symm.trans ht))
      exact searched_of_lookup (lookup_withContent_append hold hp hn new)
        (FileTree.put_ne_link first relative new)

end Disk

/-- Another content changes what a search finds in that place alone. -/
theorem findSources_withContent {disk : Disk} {root : String} {excluded : List String}
    {files : List SourceFile} {top : List String} {file : SourceFile}
    (hw : disk.tree.wellFormed = true) (h : findSources disk root excluded = .ok files)
    (ht : disk.resolve .read root = .ok (.found top)) (hf : file ∈ files) (new : Bytes) :
    findSources (disk.withContent (top ++ file.relative) new) root excluded =
      .ok (files.map (SourceFile.withContent file.relative new)) := by
  obtain ⟨start, hs, rfl⟩ := findSources_ok_iff.mp h
  have hstart := Disk.wellFormed_searched hw hs
  have ha := SourceFile.at?_of_mem_ofStart hstart hf
  exact findSources_ok_iff.mpr ⟨_, Disk.searched_withContent hs ht ha new,
    (SourceFile.ofStart_put hstart ha).symm⟩

end ImportLedger
