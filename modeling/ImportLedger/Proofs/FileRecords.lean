import ImportLedger.Proofs.FileOrder
import ImportLedger.Proofs.KeyedGroups
import ImportLedger.Proofs.Records
import ImportLedger.Proofs.SourceEdits
import ImportLedger.Scan

/-! The records of each source file. They stand side by side in a report, file after file and line
after line, and another content of one file leaves those of all others alone. -/

namespace ImportLedger

theorem pairwise_number_linesOfBytes (content : Text.Utf8.Bytes) :
    (linesOfBytes content).Pairwise fun a b => a.number < b.number := by
  rw [linesOfBytes, Line.ofText]
  split
  · exact .nil
  · refine List.pairwise_map.mp ?_
    rw [Line.map_number_numbered]
    exact List.pairwise_lt_range'

theorem pairwise_line_flatMap {α : Type} {line : α → Nat} {onLine : Line → List α}
    {lines : List Line} (h : ∀ l, ∀ r ∈ onLine l, line r = l.number)
    (hl : lines.Pairwise fun a b => a.number < b.number) :
    (lines.flatMap onLine).Pairwise fun a b => line a ≤ line b := by
  refine List.pairwise_flatMap.mpr ⟨fun l _ => ?_, hl.imp ?_⟩
  · refine List.pairwise_of_forall_mem_list fun a ha b hb => ?_
    exact Nat.le_of_eq ((h l a ha).trans (h l b hb).symm)
  · intro k l hkl a ha b hb
    rw [h k a ha, h l b hb]
    exact Nat.le_of_lt hkl

/-- Records of which each belongs to one of the files. Those of a file are its part, files come in
the order of their paths, and the lines of a file do not decrease. -/
structure GroupedByFile {α : Type} (owner : α → String) (line : α → Nat) (files : List SourceFile)
    (part : SourceFile → List α) (records : List α) : Prop where
  owned : ∀ r ∈ records, ∃ file ∈ files, owner r = file.label
  part_eq : ∀ file ∈ files, records.filter (owner · == file.label) = part file
  ordered : records.Pairwise fun a b => ∃ f ∈ files, ∃ g ∈ files,
    owner a = f.label ∧ owner b = g.label ∧ (f.octets < g.octets ∨ f = g ∧ line a ≤ line b)

section

variable {α : Type} {owner : α → String} {line : α → Nat} {files : List SourceFile}
  {part : SourceFile → List α}

theorem groupedByFile_flatMap (hown : ∀ file, ∀ r ∈ part file, owner r = file.label)
    (hline : ∀ file, (part file).Pairwise fun a b => line a ≤ line b)
    (hd : (files.map SourceFile.label).Nodup)
    (ho : files.Pairwise fun a b => a.octets < b.octets) :
    GroupedByFile owner line files part (files.flatMap part) where
  owned r hr := by
    obtain ⟨file, hf, hr⟩ := List.mem_flatMap.mp hr
    exact ⟨file, hf, hown file r hr⟩
  part_eq file hf := filter_flatMap_of_key hown hd hf
  ordered := by
    refine List.pairwise_flatMap.mpr ⟨fun file hf => ?_, ho.imp_of_mem ?_⟩
    · refine (hline file).imp_of_mem fun {a b} ha hb hab => ?_
      exact ⟨file, hf, file, hf, hown file a ha, hown file b hb, .inr ⟨rfl, hab⟩⟩
    · intro f g hf hg hfg a ha b hb
      exact ⟨f, hf, g, hg, hown f a ha, hown g b hb, .inl hfg⟩

theorem filter_flatMap_withContent (hown : ∀ file, ∀ r ∈ part file, owner r = file.label)
    (files : List SourceFile) (file : SourceFile) (new : Text.Utf8.Bytes) :
    ((files.map (SourceFile.withContent file.relative new)).flatMap part).filter
        (owner · != file.label) =
      (files.flatMap part).filter (owner · != file.label) := by
  rw [List.flatMap_map, List.filter_flatMap, List.filter_flatMap]
  congr 1
  funext f
  by_cases h : f.relative = file.relative
  · have hlabel : f.label = file.label := by rw [SourceFile.label, SourceFile.label, h]
    have hnil (g : SourceFile) (hg : g.label = file.label) :
        (part g).filter (owner · != file.label) = [] :=
      List.filter_eq_nil_iff.mpr fun r hr => by simp [hown g r hr, hg]
    rw [hnil f hlabel, hnil _ (by rw [SourceFile.label, SourceFile.relative_withContent]; exact hlabel)]
  · rw [SourceFile.withContent_of_ne h]

end

namespace Scan

variable {declared : List Dependency} {sets : DependencySets} {file : SourceFile}

theorem file_of_mem_usage {u : UsageRecord} (h : u ∈ usage declared file) :
    u.file = file.label := by
  obtain ⟨d, -, rfl⟩ := List.mem_map.mp h
  rfl

theorem file_of_mem_requires {r : RequireRecord} (h : r ∈ requires declared file) :
    r.file = file.label := by
  obtain ⟨line, -, call, -, -, -, he⟩ := mem_findRequires.mp h
  exact congrArg RequireRecord.file he

theorem file_of_mem_missing {m : MissingRecord} (h : m ∈ missing sets file) :
    m.file = file.label := by
  obtain ⟨line, -, reference, -, -, -, -, he⟩ := mem_findMissing.mp h
  exact congrArg MissingRecord.file he

theorem pairwise_line_usage (declared : List Dependency) (file : SourceFile) :
    (usage declared file).Pairwise fun a b => a.line ≤ b.line := by
  have honLine (l : Line) (d : Declaration) (hd : d ∈ Declaration.onLine file.label declared l) :
      d.line = l.number := by
    obtain ⟨s, -, hd⟩ := List.mem_filterMap.mp hd
    obtain ⟨name, -, rfl⟩ := Option.map_eq_some_iff.mp hd
    rfl
  exact List.pairwise_map.mpr
    (pairwise_line_flatMap honLine (pairwise_number_linesOfBytes file.content))

theorem pairwise_line_requires (declared : List Dependency) (file : SourceFile) :
    (requires declared file).Pairwise fun a b => a.line ≤ b.line := by
  refine pairwise_line_flatMap (fun l r hr => ?_) (pairwise_number_linesOfBytes file.content)
  obtain ⟨call, -, hr⟩ := List.mem_filterMap.mp hr
  obtain ⟨name, -, rfl⟩ := Option.map_eq_some_iff.mp hr
  rfl

theorem pairwise_line_missing (sets : DependencySets) (file : SourceFile) :
    (missing sets file).Pairwise fun a b => a.line ≤ b.line := by
  refine pairwise_line_flatMap (fun l m hm => ?_) (pairwise_number_linesOfBytes file.content)
  obtain ⟨reference, -, hm⟩ := List.mem_filterMap.mp hm
  obtain ⟨name, -, rfl⟩ := Option.map_eq_some_iff.mp hm
  rfl

end Scan

end ImportLedger
