import ImportLedger.Proofs.SourceRoot
import Mathlib.Data.List.Nodup

/-! A label tells which source file it belongs to. In a tree whose directories
hold every name once, and no name with a slash in it, the files that a search
finds have different labels. -/

namespace ImportLedger

namespace Path

/-- A name that something in a directory can have. -/
def isEntryName (name : String) : Bool :=
  name != "" && name != "." && name != ".." && !name.toList.contains '/'

theorem slash_notMem_of_isEntryName {name : String} (h : isEntryName name = true) :
    '/' ∉ name.toList := by
  simp only [isEntryName, Bool.and_eq_true] at h
  simpa using h.2

theorem splitOn_intercalate {names : List String} (h : ∀ n ∈ names, isEntryName n = true)
    (hne : names ≠ []) : ("/".intercalate names).toList.splitOn '/' = names.map String.toList := by
  have hl : ("/".intercalate names).toList =
      List.intercalate ['/'] (names.map String.toList) := by
    simp [String.toList_intercalate]
  rw [hl]
  refine List.splitOn_intercalate '/' ?_ (by simpa using hne)
  intro l hm
  obtain ⟨n, hn, rfl⟩ := List.mem_map.mp hm
  exact slash_notMem_of_isEntryName (h n hn)

end Path

namespace FileTree

mutual

/-- The trees that a file system can hold. -/
def wellFormed : FileTree → Bool
  | file _ => true
  | link _ => true
  | directory entries => wellFormedEntries entries

def wellFormedEntries : List (String × FileTree) → Bool
  | [] => true
  | (name, node) :: rest =>
    Path.isEntryName name && !(rest.map (·.1)).contains name && node.wellFormed &&
      wellFormedEntries rest

end

theorem wellFormedEntries_cons {name : String} {node : FileTree}
    {rest : List (String × FileTree)} :
    wellFormedEntries ((name, node) :: rest) = true ↔
      Path.isEntryName name = true ∧ name ∉ rest.map (·.1) ∧ node.wellFormed = true ∧
        wellFormedEntries rest = true := by
  rw [wellFormedEntries]
  simp only [Bool.and_eq_true, Bool.not_eq_true', and_assoc]
  simp

theorem wellFormed_of_lookup {entries : Entries} {name : String} {child : FileTree}
    (h : wellFormedEntries entries = true) (hl : entries.lookup name = some child) :
    child.wellFormed = true := by
  induction entries with
  | nil => simp at hl
  | cons e rest ih =>
    obtain ⟨n, node⟩ := e
    obtain ⟨_, _, hnode, hrest⟩ := wellFormedEntries_cons.mp h
    by_cases he : name = n
    · subst he
      have : node = child := by simpa using hl
      exact this ▸ hnode
    · have hne : (name == n) = false := beq_eq_false_iff_ne.mpr he
      exact ih hrest (by simpa only [List.lookup_cons, hne] using hl)

theorem wellFormedEntries_entries {tree : FileTree} (h : tree.wellFormed = true) :
    wellFormedEntries tree.entries = true := by
  cases tree with
  | file content => rfl
  | link target => rfl
  | directory entries => simpa only [wellFormed, FileTree.entries] using h

theorem wellFormed_at? {tree node : FileTree} {place : List String}
    (h : tree.wellFormed = true) (ha : tree.at? place = some node) : node.wellFormed = true := by
  induction place generalizing tree with
  | nil =>
    have : tree = node := by simpa [at?] using ha
    exact this ▸ h
  | cons name rest ih =>
    cases tree with
    | file content => simp [at?] at ha
    | link target => simp [at?] at ha
    | directory entries =>
      cases hl : entries.lookup name with
      | none => simp [at?, hl] at ha
      | some child =>
        have hc := wellFormed_of_lookup (wellFormedEntries_entries h) hl
        exact ih hc (by simpa [at?, hl] using ha)

end FileTree

namespace SourceFile

mutual

/-- What a search finds at an entry begins with the entry's name. -/
theorem relative_of_mem_ofEntry {excluded : List String} {name : String} {node : FileTree}
    {file : SourceFile} (hn : Path.isEntryName name = true) (hw : node.wellFormed = true)
    (h : file ∈ ofEntry excluded name node) :
    (∃ rest, file.relative = name :: rest) ∧ ∀ n ∈ file.relative, Path.isEntryName n = true := by
  cases node with
  | file content =>
    rw [ofEntry] at h
    split at h
    · obtain rfl := List.mem_singleton.mp h
      exact ⟨⟨[], rfl⟩, by simpa using hn⟩
    · simp at h
  | link target => simp [ofEntry] at h
  | directory entries =>
    rw [ofEntry] at h
    split at h
    · simp at h
    · obtain ⟨inner, hi, rfl⟩ := List.mem_map.mp h
      have hh := relative_of_mem_ofEntries (FileTree.wellFormedEntries_entries hw) hi
      exact ⟨⟨inner.relative, rfl⟩, by simpa [below] using ⟨hn, hh.2⟩⟩

theorem relative_of_mem_ofEntries {excluded : List String} {entries : List (String × FileTree)}
    {file : SourceFile} (hw : FileTree.wellFormedEntries entries = true)
    (h : file ∈ ofEntries excluded entries) :
    (∃ name ∈ entries.map (·.1), ∃ rest, file.relative = name :: rest) ∧
      ∀ n ∈ file.relative, Path.isEntryName n = true := by
  match entries with
  | [] => simp [ofEntries] at h
  | (name, node) :: more =>
    obtain ⟨hn, _, hnode, hmore⟩ := FileTree.wellFormedEntries_cons.mp hw
    rw [ofEntries] at h
    rcases List.mem_append.mp h with h | h
    · obtain ⟨hr, hall⟩ := relative_of_mem_ofEntry hn hnode h
      exact ⟨⟨name, by simp, hr⟩, hall⟩
    · obtain ⟨⟨other, ho, hr⟩, hall⟩ := relative_of_mem_ofEntries hmore h
      exact ⟨⟨other, List.mem_cons_of_mem _ ho, hr⟩, hall⟩

end

mutual

theorem nodup_relative_ofEntry {excluded : List String} {name : String} {node : FileTree}
    (hw : node.wellFormed = true) : ((ofEntry excluded name node).map (·.relative)).Nodup := by
  cases node with
  | file content =>
    rw [ofEntry]
    split <;> simp
  | link target => simp [ofEntry]
  | directory entries =>
    rw [ofEntry]
    split
    · simp
    · have hh : ((ofEntries excluded entries).map (·.relative)).Nodup :=
        nodup_relative_ofEntries (FileTree.wellFormedEntries_entries hw)
      have hc := hh.map (List.cons_injective (a := name))
      rw [List.map_map] at hc ⊢
      exact hc

theorem nodup_relative_ofEntries {excluded : List String} {entries : List (String × FileTree)}
    (hw : FileTree.wellFormedEntries entries = true) :
    ((ofEntries excluded entries).map (·.relative)).Nodup := by
  match entries with
  | [] => simp [ofEntries]
  | (name, node) :: more =>
    obtain ⟨hn, hfresh, hnode, hmore⟩ := FileTree.wellFormedEntries_cons.mp hw
    rw [ofEntries, List.map_append]
    refine List.nodup_append.mpr
      ⟨nodup_relative_ofEntry hnode, nodup_relative_ofEntries hmore, ?_⟩
    intro a ha b hb he
    obtain ⟨first, hf, rfl⟩ := List.mem_map.mp ha
    obtain ⟨second, hs, rfl⟩ := List.mem_map.mp hb
    obtain ⟨rest, hr⟩ := (relative_of_mem_ofEntry hn hnode hf).1
    obtain ⟨other, ho, rest', hr'⟩ := (relative_of_mem_ofEntries hmore hs).1
    have : name = other := (List.cons.inj (hr.symm.trans (he.trans hr'))).1
    exact hfresh (this ▸ ho)

end

theorem relative_eq_of_label_eq {a b : SourceFile}
    (ha : ∀ n ∈ a.relative, Path.isEntryName n = true) (ha' : a.relative ≠ [])
    (hb : ∀ n ∈ b.relative, Path.isEntryName n = true) (hb' : b.relative ≠ [])
    (h : a.label = b.label) : a.relative = b.relative := by
  have hh : a.relative.map String.toList = b.relative.map String.toList := by
    rw [← Path.splitOn_intercalate ha ha', ← Path.splitOn_intercalate hb hb']
    exact congrArg (fun label => label.toList.splitOn '/') h
  exact List.map_injective_iff.mpr (fun _ _ => String.toList_injective) hh

theorem nodup_label_ofEntries {excluded : List String} {entries : FileTree.Entries}
    (hw : FileTree.wellFormedEntries entries = true) :
    ((ofEntries excluded entries).map label).Nodup := by
  refine List.pairwise_map.mpr ((List.pairwise_map.mp (nodup_relative_ofEntries hw)).imp_of_mem ?_)
  intro a b ha hb hne he
  obtain ⟨⟨_, _, _, hra⟩, hna⟩ := relative_of_mem_ofEntries hw ha
  obtain ⟨⟨_, _, _, hrb⟩, hnb⟩ := relative_of_mem_ofEntries hw hb
  exact hne (relative_eq_of_label_eq hna (by simp [hra]) hnb (by simp [hrb]) he)

end SourceFile

/-- A search yields at most the root itself, or what lies below some place. -/
theorem findSources_ok {disk : Disk} {root : String} {excluded : List String}
    {files : List SourceFile} (h : findSources disk root excluded = .ok files) :
    (∃ content, files.Sublist [⟨[], content⟩]) ∨
      ∃ place node, disk.tree.at? place = some node ∧
        files = sortBy SourceFile.le (SourceFile.ofEntries excluded node.entries) := by
  obtain ⟨start, hs, rfl⟩ := findSources_ok_iff.mp h
  obtain ⟨place, node, -, hp, hstart⟩ := Disk.searched_ok hs
  cases start with
  | file content =>
    refine .inl ⟨content, ?_⟩
    rw [SourceFile.ofStart]
    split <;> simp
  | link target =>
    rcases hstart with rfl | hstart
    · exact .inr ⟨place, _, hp, rfl⟩
    · cases hstart
  | directory entries =>
    rcases hstart with rfl | hstart
    · exact .inr ⟨place, _, hp, rfl⟩
    · cases hstart
      exact .inr ⟨place, node, hp, rfl⟩

theorem nodup_label_of_findSources {disk : Disk} {root : String} {excluded : List String}
    {files : List SourceFile} (hw : disk.tree.wellFormed = true)
    (h : findSources disk root excluded = .ok files) : (files.map SourceFile.label).Nodup := by
  rcases findSources_ok h with ⟨content, hs⟩ | ⟨place, node, hp, rfl⟩
  · exact (List.nodup_singleton _).sublist (hs.map SourceFile.label)
  · have hn := FileTree.wellFormedEntries_entries (FileTree.wellFormed_at? hw hp)
    have hperm := (sortBy_perm SourceFile.le (SourceFile.ofEntries excluded node.entries)).map
      SourceFile.label
    exact hperm.nodup_iff.mpr (SourceFile.nodup_label_ofEntries hn)

end ImportLedger
