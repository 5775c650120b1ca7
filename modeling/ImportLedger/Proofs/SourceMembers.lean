import ImportLedger.Proofs.FileEdits
import ImportLedger.Proofs.SourceNames

/-! What a search below a directory finds: the files that stand at admitted places, whatever order
their directories list them in. -/

namespace ImportLedger

/-- Names that lead to a source file past no excluded directory. -/
def Admitted (excluded relative : List String) : Prop :=
  ∃ names name, relative = names ++ [name] ∧ (∀ n ∈ names, n ∉ excluded) ∧ HasSourceExtension name

namespace Admitted

variable {excluded : List String} {name : String} {relative : List String}

theorem singleton_iff : Admitted excluded [name] ↔ HasSourceExtension name := by
  constructor
  · rintro ⟨names, last, he, -, hlast⟩
    obtain ⟨-, hname⟩ := List.append_eq_singleton_iff.mp he.symm |>.resolve_right (by simp)
    exact (List.cons.inj hname).1 ▸ hlast
  · intro h
    exact ⟨[], name, rfl, by simp, h⟩

theorem cons_iff (hne : relative ≠ []) :
    Admitted excluded (name :: relative) ↔ name ∉ excluded ∧ Admitted excluded relative := by
  constructor
  · rintro ⟨names, last, he, hnames, hlast⟩
    cases names with
    | nil => exact absurd (List.cons.inj he).2 hne
    | cons n names =>
      obtain ⟨rfl, rfl⟩ := List.cons.inj he
      exact ⟨hnames _ List.mem_cons_self, names, last, rfl,
        fun m hm => hnames m (List.mem_cons_of_mem _ hm), hlast⟩
  · rintro ⟨hname, names, last, rfl, hnames, hlast⟩
    exact ⟨name :: names, last, rfl, List.forall_mem_cons.mpr ⟨hname, hnames⟩, hlast⟩

end Admitted

namespace SourceFile

variable {excluded : List String}

mutual

theorem mem_ofEntry_iff {name : String} {node : FileTree} {file : SourceFile}
    (hn : Path.isEntryName name = true) (hw : node.wellFormed = true) :
    file ∈ ofEntry excluded name node ↔
      ∃ rest, file.relative = name :: rest ∧ node.at? rest = some (.file file.content) ∧
        Admitted excluded (name :: rest) := by
  cases node with
  | file content =>
    rw [ofEntry]
    constructor
    · intro h
      split at h
      · obtain rfl := List.mem_singleton.mp h
        exact ⟨[], rfl, rfl, Admitted.singleton_iff.mpr ((Language.isSome_ofPath? hn).mp ‹_›)⟩
      · cases h
    · rintro ⟨rest, hr, ha, had⟩
      cases rest with
      | nil =>
        rw [if_pos ((Language.isSome_ofPath? hn).mpr (Admitted.singleton_iff.mp had))]
        obtain rfl := FileTree.file.inj (Option.some.inj ha)
        exact List.mem_singleton.mpr (by rw [← hr])
      | cons n rest => cases ha
  | link target =>
    rw [ofEntry]
    refine ⟨fun h => (by cases h), ?_⟩
    rintro ⟨rest, -, ha, -⟩
    cases rest <;> cases ha
  | directory entries =>
    rw [ofEntry]
    have hentries : FileTree.wellFormedEntries entries = true :=
      FileTree.wellFormedEntries_entries hw
    constructor
    · intro h
      split at h
      · cases h
      · rename_i hname
        obtain ⟨inner, hi, rfl⟩ := List.mem_map.mp h
        obtain ⟨ha, had⟩ := (mem_ofEntries_iff hentries).mp hi
        have hne : inner.relative ≠ [] := fun he => by
          rw [he] at ha
          cases ha
        have hname' : name ∉ excluded := by simpa using hname
        exact ⟨inner.relative, rfl, ha, (Admitted.cons_iff hne).mpr ⟨hname', had⟩⟩
    · rintro ⟨rest, hr, ha, had⟩
      have hne : rest ≠ [] := fun he => by
        rw [he] at ha
        cases ha
      obtain ⟨hname, had'⟩ := (Admitted.cons_iff hne).mp had
      have hname' : ¬excluded.contains name = true := by simpa using hname
      rw [if_neg hname']
      have hm : ⟨rest, file.content⟩ ∈ ofEntries excluded entries :=
        (mem_ofEntries_iff hentries).mpr ⟨ha, had'⟩
      refine List.mem_map.mpr ⟨_, hm, ?_⟩
      rw [below, ← hr]

theorem mem_ofEntries_iff {entries : List (String × FileTree)} {file : SourceFile}
    (hw : FileTree.wellFormedEntries entries = true) : file ∈ ofEntries excluded entries ↔
      (FileTree.directory entries).at? file.relative = some (.file file.content) ∧
        Admitted excluded file.relative := by
  match entries with
  | [] =>
    refine ⟨fun h => absurd h List.not_mem_nil, ?_⟩
    rintro ⟨ha, -⟩
    cases hr : file.relative with
    | nil =>
      rw [hr] at ha
      cases ha
    | cons n rest =>
      rw [hr] at ha
      cases ha
  | (name, node) :: more =>
    obtain ⟨hn, hfresh, hnode, hmore⟩ := FileTree.wellFormedEntries_cons.mp hw
    rw [ofEntries, List.mem_append, mem_ofEntry_iff hn hnode, mem_ofEntries_iff hmore]
    cases hr : file.relative with
    | nil => simp [FileTree.at?]
    | cons n rest =>
      rw [FileTree.at?, FileTree.at?, List.lookup_cons]
      by_cases he : n = name
      · subst he
        have hl : more.lookup n = none := by
          refine List.lookup_eq_none_iff.mpr fun e he => bne_iff_ne.mpr fun hne => hfresh ?_
          exact hne ▸ List.mem_map_of_mem he
        simp [hl]
      · have hb : (n == name) = false := beq_eq_false_iff_ne.mpr he
        simp [hb, he]

end

end SourceFile

end ImportLedger
