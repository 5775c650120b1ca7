import ImportLedger.Proofs.DiskPaths
import ImportLedger.Proofs.Outcomes

/-! A file that is given another content. No path leads anywhere else for it, and what stands at
other places stays as it was. -/

namespace ImportLedger

namespace FileTree

theorem Entries.lookup_put (entries : Entries) (name other : String) (node : FileTree) :
    (entries.put name node).lookup other =
      if other = name then some node else entries.lookup other := by
  induction entries with
  | nil =>
    by_cases h : other = name
    · simp [put, h]
    · simp [put, h, List.lookup_cons, beq_eq_false_iff_ne.mpr h]
  | cons e rest ih =>
    obtain ⟨n, t⟩ := e
    by_cases hn : n = name
    · subst hn
      by_cases h : other = n
      · simp [put, h]
      · simp [put, h, List.lookup_cons, beq_eq_false_iff_ne.mpr h]
    · rw [put, if_neg hn, List.lookup_cons, List.lookup_cons, ih]
      by_cases h : other = n
      · subst h
        simp [hn]
      · simp [beq_eq_false_iff_ne.mpr h]

theorem entries_directory (entries : Entries) : (directory entries).entries = entries := rfl

theorem at?_cons_eq_some {tree node : FileTree} {name : String} {rest : List String} :
    tree.at? (name :: rest) = some node ↔
      ∃ child, tree.entries.lookup name = some child ∧ child.at? rest = some node := by
  cases tree with
  | file content => simp [at?, entries]
  | link target => simp [at?, entries]
  | directory entries =>
    cases hl : entries.lookup name with
    | none => simp [at?, entries_directory, hl]
    | some child => simp [at?, entries_directory, hl]

theorem put_cons {tree child : FileTree} {name : String}
    (h : tree.entries.lookup name = some child) (rest : List String) (node : FileTree) :
    tree.put (name :: rest) node = directory (tree.entries.put name (child.put rest node)) := by
  rw [put, h]
  rfl

theorem put_ne_link (tree : FileTree) (place : List String) (content : Text.Utf8.Bytes)
    (target : String) : tree.put place (file content) ≠ link target := by
  cases place <;> simp [put]

theorem at?_put_append {tree node : FileTree} {top : List String} (h : tree.at? top = some node)
    (rest : List String) (new : FileTree) :
    (tree.put (top ++ rest) new).at? top = some (node.put rest new) := by
  induction top generalizing tree with
  | nil =>
    obtain rfl := Option.some.inj h
    rfl
  | cons name top ih =>
    obtain ⟨child, hl, hc⟩ := at?_cons_eq_some.mp h
    rw [List.cons_append, put_cons hl]
    refine at?_cons_eq_some.mpr ⟨child.put (top ++ rest) new, ?_, ih hc⟩
    simp [entries_directory, Entries.lookup_put]

theorem at?_put_self (tree : FileTree) (place : List String) (node : FileTree) :
    (tree.put place node).at? place = some node := by
  induction place generalizing tree with
  | nil => rfl
  | cons name place ih =>
    rw [put]
    refine at?_cons_eq_some.mpr ⟨_, ?_, ih ((tree.entries.lookup name).getD (directory []))⟩
    rw [entries_directory, Entries.lookup_put, if_pos rfl]

/-- Where a file can be written: a file stands there, or nothing does in a directory that is
there. -/
inductive Writable : FileTree → List String → Prop
  | present (old : Text.Utf8.Bytes) : Writable (file old) []
  | vacant {entries : Entries} {name : String} (hl : entries.lookup name = none) :
    Writable (directory entries) [name]
  | inside {entries : Entries} {name : String} {child : FileTree} {rest : List String}
    (hl : entries.lookup name = some child) (h : Writable child rest) :
    Writable (directory entries) (name :: rest)

theorem Writable.append {tree node : FileTree} {top rest : List String}
    (h : tree.at? top = some node) (hn : Writable node rest) : Writable tree (top ++ rest) := by
  induction top generalizing tree with
  | nil => exact Option.some.inj h ▸ hn
  | cons name top ih =>
    obtain ⟨child, hl, hc⟩ := at?_cons_eq_some.mp h
    cases tree with
    | file content => cases hl
    | link target => cases hl
    | directory entries => exact .inside hl (ih hc)

theorem Writable.of_append {tree node : FileTree} {top rest : List String}
    (h : Writable tree (top ++ rest)) (ha : tree.at? top = some node) : Writable node rest := by
  induction top generalizing tree with
  | nil => exact Option.some.inj ha ▸ h
  | cons name top ih =>
    obtain ⟨child, hl, hc⟩ := at?_cons_eq_some.mp ha
    generalize hplace : name :: top ++ rest = place at h
    cases h with
    | present old => cases hl
    | vacant hnone =>
      obtain ⟨rfl, -⟩ := List.cons.inj hplace
      rw [entries_directory, hnone] at hl
      cases hl
    | inside hchild h =>
      obtain ⟨rfl, rfl⟩ := List.cons.inj hplace
      rw [entries_directory, hchild] at hl
      exact ih h (Option.some.inj hl ▸ hc)

theorem writable_of_file {tree : FileTree} {place : List String} {old : Text.Utf8.Bytes}
    (h : tree.at? place = some (file old)) : Writable tree place := by
  have hh := Writable.append h (.present old)
  rwa [List.append_nil] at hh

/-- A place where a file can be written has no link and no directory. -/
theorem Writable.eq_file {tree node : FileTree} {place : List String} (h : Writable tree place)
    (ha : tree.at? place = some node) : ∃ old, node = file old := by
  induction h with
  | present old => exact ⟨old, (Option.some.inj ha).symm⟩
  | vacant hl =>
    obtain ⟨child, hl', -⟩ := at?_cons_eq_some.mp ha
    rw [entries_directory, hl] at hl'
    cases hl'
  | inside hl _ ih =>
    obtain ⟨child, hl', hc⟩ := at?_cons_eq_some.mp ha
    rw [entries_directory, hl] at hl'
    exact ih (Option.some.inj hl' ▸ hc)

section

variable {tree : FileTree} {place other : List String}

/-- A written file is seen at its own place alone, and in the directories on the way. -/
theorem at?_put_or_directory (h : Writable tree place) (hne : other ≠ place)
    (new : Text.Utf8.Bytes) :
    (tree.put place (file new)).at? other = tree.at? other ∨ ∃ rest inner inner',
      place = other ++ rest ∧ tree.at? other = some (directory inner) ∧
      (tree.put place (file new)).at? other = some (directory inner') := by
  induction h generalizing other with
  | present old =>
    cases other with
    | nil => exact absurd rfl hne
    | cons name other => exact .inl rfl
  | @vacant entries name hl =>
    cases other with
    | nil => exact .inr ⟨_, _, _, rfl, rfl, rfl⟩
    | cons name' other =>
      refine .inl ?_
      by_cases hn : name' = name
      · subst hn
        cases other with
        | nil => exact absurd rfl hne
        | cons name other => simp [put, entries_directory, at?, Entries.lookup_put, hl]
      · simp [put, entries_directory, at?, Entries.lookup_put, hn]
  | @inside entries name child rest hl _ ih =>
    rw [put_cons hl, entries_directory]
    cases other with
    | nil => exact .inr ⟨_, _, _, rfl, rfl, rfl⟩
    | cons name' other =>
      by_cases hn : name' = name
      · subst hn
        have hh := @ih other fun he => hne (by rw [he])
        simpa only [at?, Entries.lookup_put, if_pos, hl, List.cons_append, List.cons.injEq,
          true_and] using hh
      · refine .inl ?_
        simp only [at?, Entries.lookup_put, if_neg hn]

theorem at?_put_of_ne {content : Text.Utf8.Bytes} (h : Writable tree place)
    (ho : tree.at? other = some (file content)) (hne : other ≠ place) (new : Text.Utf8.Bytes) :
    (tree.put place (file new)).at? other = some (file content) := by
  rcases at?_put_or_directory h hne new with he | ⟨_, _, _, -, hd, -⟩
  · rw [he, ho]
  · rw [hd] at ho
    cases ho

theorem shape_at?_put_of_ne (h : Writable tree place) (hne : other ≠ place)
    (new : Text.Utf8.Bytes) :
    ((tree.put place (file new)).at? other).map shape = (tree.at? other).map shape := by
  rcases at?_put_or_directory h hne new with he | ⟨_, _, _, -, hd, hd'⟩
  · rw [he]
  · rw [hd, hd']
    rfl

theorem shape_at?_put {old : Text.Utf8.Bytes} (h : tree.at? place = some (file old))
    (new : Text.Utf8.Bytes) (other : List String) :
    ((tree.put place (file new)).at? other).map shape = (tree.at? other).map shape := by
  by_cases hne : other = place
  · rw [hne, at?_put_self, h]
    rfl
  · exact shape_at?_put_of_ne (writable_of_file h) hne new

end

end FileTree

namespace Disk

open FileTree

/-- A disk on which the file at a place has another content. -/
def withContent (disk : Disk) (place : List String) (content : Text.Utf8.Bytes) : Disk :=
  { disk with tree := disk.tree.put place (.file content) }

variable {disk : Disk} {place : List String} {old : Text.Utf8.Bytes}

theorem resolve_withContent (h : disk.tree.at? place = some (.file old)) (new : Text.Utf8.Bytes)
    (purpose : Purpose) (path : String) :
    (disk.withContent place new).resolve purpose path = disk.resolve purpose path := by
  simp only [resolve, withContent, follow_congr (shape_at?_put h new)]

theorem lookup_withContent_of_link (h : disk.tree.at? place = some (.file old)) {purpose : Purpose}
    {path target : String} (hl : disk.lookup purpose path = .ok (.link target))
    (new : Text.Utf8.Bytes) :
    (disk.withContent place new).lookup purpose path = .ok (.link target) := by
  obtain ⟨other, hr, ha⟩ := lookup_ok hl
  have hshape := shape_at?_put h new other
  rw [ha] at hshape
  obtain ⟨node, hnode, hs⟩ := Option.map_eq_some_iff.mp hshape
  obtain rfl : node = .link target := by cases node <;> simp_all [shape]
  exact lookup_of_resolve ((resolve_withContent h new purpose path).trans hr) hnode

theorem lookup_withContent_append {top relative : List String}
    (h : disk.tree.at? (top ++ relative) = some (.file old)) {purpose : Purpose} {path : String}
    {node : FileTree} (hr : disk.resolve purpose path = .ok (.found top))
    (hn : disk.tree.at? top = some node) (new : Text.Utf8.Bytes) :
    (disk.withContent (top ++ relative) new).lookup purpose path =
      .ok (node.put relative (.file new)) :=
  lookup_of_resolve ((resolve_withContent h new purpose path).trans hr)
    (at?_put_append hn relative _)

end Disk

end ImportLedger
