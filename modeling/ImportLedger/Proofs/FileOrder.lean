import ImportLedger.Proofs.ByteOrder
import ImportLedger.Proofs.SourceLabels
import ImportLedger.Proofs.StableSort

/-! The order in which a search yields source files: name by name, each name by its bytes. -/

namespace ImportLedger

namespace SourceFile

theorem le_iff {a b : SourceFile} : le a b = true ↔ ¬ b.relative < a.relative := by
  rw [le, Bool.not_eq_true', decide_eq_false_iff_not]

theorem le_total (a b : SourceFile) : le a b = true ∨ le b a = true := by
  rw [le_iff, le_iff]
  by_cases h : b.relative < a.relative
  · exact .inr (List.lt_asymm h)
  · exact .inl h

theorem le_trans (a b c : SourceFile) (hab : le a b = true) (hbc : le b c = true) :
    le a c = true := by
  rw [le_iff] at *
  have hfirst : List.le a.relative b.relative := hab
  have hsecond : List.le b.relative c.relative := hbc
  exact List.le_trans hfirst hsecond

theorem lt_of_le_of_ne {a b : SourceFile} (h : le a b = true) (hne : a.relative ≠ b.relative) :
    a.relative < b.relative := by
  by_contra hlt
  exact hne (List.le_antisymm (le_iff.mp h) hlt)

/-- The names that lead to a file as they are stored. -/
def octets (file : SourceFile) : List Text.Utf8.Bytes :=
  file.relative.map fun name => Text.Utf8.encode name.toList

theorem octets_lt {a b : SourceFile} (h : a.relative < b.relative) : a.octets < b.octets := by
  unfold octets
  generalize a.relative = p at h ⊢
  generalize b.relative = q at h ⊢
  induction h with
  | nil => exact List.nil_lt_cons _ _
  | rel hname =>
    have hchars : String.toList _ < String.toList _ := hname
    exact List.cons_lt_cons_iff.mpr (.inl (Text.Utf8.encode_lt hchars))
  | cons _ ih => exact List.cons_lt_cons_iff.mpr (.inr ⟨rfl, ih⟩)

end SourceFile

theorem findSources_pairwise {disk : Disk} {root : String} {excluded : List String}
    {files : List SourceFile} (hw : disk.tree.wellFormed = true)
    (h : findSources disk root excluded = .ok files) :
    files.Pairwise fun a b => a.octets < b.octets := by
  rcases findSources_ok h with ⟨content, hs⟩ | ⟨place, node, hp, rfl⟩
  · exact (List.pairwise_singleton _ _).sublist hs
  · have hn := FileTree.wellFormedEntries_entries (FileTree.wellFormed_at? hw hp)
    have hsorted := pairwise_sortBy SourceFile.le_total SourceFile.le_trans
      (SourceFile.ofEntries excluded node.entries)
    have hperm := sortBy_perm SourceFile.le (SourceFile.ofEntries excluded node.entries)
    have hnodup : ((sortBy SourceFile.le (SourceFile.ofEntries excluded node.entries)).map
        (·.relative)).Nodup :=
      (hperm.map _).nodup_iff.mpr (SourceFile.nodup_relative_ofEntries hn)
    refine (hsorted.and (List.pairwise_map.mp hnodup)).imp ?_
    rintro a b ⟨hle, hne⟩
    exact SourceFile.octets_lt (SourceFile.lt_of_le_of_ne hle hne)

end ImportLedger
