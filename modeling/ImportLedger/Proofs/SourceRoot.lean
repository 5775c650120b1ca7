import ImportLedger.Disk.Source
import ImportLedger.Proofs.DiskPaths

/-! Where a search for source files starts. A search looks its root up first, and what it yields
depends on what stands there alone. -/

namespace ImportLedger

/-- What a search starts from. A link is followed, into a directory only. -/
def Disk.searched (disk : Disk) (root : String) : Except FileError FileTree :=
  match disk.lookup .inspect root with
  | .ok (.link _) => (disk.lookup .read root).map fun node => .directory node.entries
  | start => start

def SourceFile.ofStart (root : String) (excluded : List String) : FileTree → List SourceFile
  | .file content => if (Language.ofPath? root).isSome then [⟨[], content⟩] else []
  | start => sortBy SourceFile.le (SourceFile.ofEntries excluded start.entries)

theorem findSources_eq (disk : Disk) (root : String) (excluded : List String) :
    findSources disk root excluded =
      ((disk.searched root).map (SourceFile.ofStart root excluded)).mapError (.walk root) := by
  rw [findSources, Disk.searched]
  cases hl : disk.lookup .inspect root with
  | error cause => rfl
  | ok node =>
    cases node with
    | file content => rfl
    | directory entries => rfl
    | link target =>
      dsimp only
      cases hr : disk.lookup .read root <;> rfl

theorem findSources_ok_iff {disk : Disk} {root : String} {excluded : List String}
    {files : List SourceFile} :
    findSources disk root excluded = .ok files ↔
      ∃ start, disk.searched root = .ok start ∧ files = SourceFile.ofStart root excluded start := by
  rw [findSources_eq]
  cases hs : disk.searched root with
  | error cause =>
    constructor
    · intro h
      cases h
    · rintro ⟨_, h, _⟩
      cases h
  | ok start =>
    constructor
    · intro h
      exact ⟨start, rfl, (Except.ok.inj h).symm⟩
    · rintro ⟨_, h, rfl⟩
      cases h
      rfl

theorem Disk.searched_of_lookup {disk : Disk} {root : String} {node : FileTree}
    (h : disk.lookup .inspect root = .ok node) (hlink : ∀ target, node ≠ .link target) :
    disk.searched root = .ok node := by
  rw [searched, h]
  cases node with
  | link target => exact absurd rfl (hlink target)
  | file content => rfl
  | directory entries => rfl

theorem Disk.searched_ok {disk : Disk} {root : String} {start : FileTree}
    (h : disk.searched root = .ok start) :
    ∃ place node, disk.resolve .read root = .ok (.found place) ∧
      disk.tree.at? place = some node ∧ (start = node ∨ start = .directory node.entries) := by
  cases hl : disk.lookup .inspect root with
  | error cause => simp [searched, hl] at h
  | ok first =>
    by_cases hlink : ∃ target, first = .link target
    · obtain ⟨target, rfl⟩ := hlink
      cases hr : disk.lookup .read root with
      | error cause => simp [searched, hl, hr, Except.map] at h
      | ok node =>
        obtain ⟨place, hp, ha⟩ := lookup_ok hr
        have he : FileTree.directory node.entries = start := by
          simpa [searched, hl, hr, Except.map] using h
        exact ⟨place, node, hp, ha, .inr he.symm⟩
    · have hlink' : ∀ target, first ≠ .link target := fun target he => hlink ⟨target, he⟩
      have he : first = start := Except.ok.inj ((searched_of_lookup hl hlink').symm.trans h)
      obtain ⟨place, hp, ha⟩ := lookup_ok hl
      exact ⟨place, first, resolve_read_of_inspect hp (by simpa [ha] using hlink'), ha,
        .inl he.symm⟩

end ImportLedger
