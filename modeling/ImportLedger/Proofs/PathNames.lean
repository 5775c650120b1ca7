import ImportLedger.Proofs.DiskPaths
import ImportLedger.Proofs.SourceLabels

/-! Paths that end in a name. In a tree without links such a path leads to an entry of that name, in
the directory to which the path before it leads. -/

namespace ImportLedger

namespace Path

/-- The steps of a path but for the slash at its end. -/
def names (path : String) : List Step :=
  ((path.toList.splitOn '/').filter (!·.isEmpty)).map Step.ofName

theorem steps_eq (path : String) :
    steps path = names path ++ if endsInSlash path then [.slash] else [] := rfl

theorem toList_ne_nil_of_isEntryName {name : String} (h : isEntryName name = true) :
    name.toList ≠ [] := by
  simp only [isEntryName, Bool.and_eq_true, bne_iff_ne] at h
  simpa using h.1.1.1

theorem ofName_of_isEntryName {name : String} (h : isEntryName name = true) :
    Step.ofName name.toList = .enter name := by
  simp only [isEntryName, Bool.and_eq_true, bne_iff_ne] at h
  unfold Step.ofName
  split
  · rename_i hdot
    exact absurd (String.toList_injective hdot) h.1.1.2
  · rename_i hdots
    exact absurd (String.toList_injective hdots) h.1.2
  · rw [String.ofList_toList]

theorem getLast?_append_entryName {name : String} (h : isEntryName name = true) (s : List Char) :
    (s ++ name.toList).getLast? ≠ some '/' := by
  intro hlast
  rw [List.getLast?_append_of_ne_nil _ (toList_ne_nil_of_isEntryName h)] at hlast
  exact slash_notMem_of_isEntryName h (List.mem_of_getLast? hlast)

theorem splitOn_append_entryName {name : String} (h : isEntryName name = true) (s : List Char) :
    (s ++ '/' :: name.toList).splitOn '/' = s.splitOn '/' ++ [name.toList] := by
  rw [List.splitOn_append_cons_self, List.splitOn_eq_singleton (slash_notMem_of_isEntryName h)]

theorem steps_join {name : String} (h : isEntryName name = true) (base : String) :
    steps (join base name) = names base ++ [.enter name] := by
  have hkept : [name.toList].filter (!·.isEmpty) = [name.toList] := by
    simp [toList_ne_nil_of_isEntryName h]
  have hslash (s : List Char) : decide ((s ++ name.toList).getLast? = some '/') = false :=
    decide_eq_false (getLast?_append_entryName h s)
  -- A slash at the end of the first path stands for the one that would be put between.
  have hsplit {path : String} {s : List Char} (hp : path.toList = s ++ '/' :: name.toList)
      (hs : names base = ((s.splitOn '/').filter (!·.isEmpty)).map Step.ofName) :
      steps path = names base ++ [.enter name] := by
    have hlast := hslash (s ++ ['/'])
    rw [List.append_assoc, List.singleton_append] at hlast
    rw [steps, endsInSlash, hp, splitOn_append_entryName h, List.filter_append, hkept,
      List.map_append, hlast, hs, List.map_singleton, ofName_of_isEntryName h]
    simp
  rw [join]
  split
  · rename_i hbase
    have hlast := hslash []
    rw [List.nil_append] at hlast
    rw [steps, endsInSlash, hlast, List.splitOn_eq_singleton (slash_notMem_of_isEntryName h), hkept,
      List.map_singleton, ofName_of_isEntryName h, hbase]
    simp [names]
  · split
    · rename_i hends
      obtain ⟨s, hs⟩ := List.getLast?_eq_some_iff.mp (of_decide_eq_true hends)
      refine hsplit (s := s) (by simp [hs]) ?_
      rw [names, hs, List.splitOn_append_cons_self, List.filter_append]
      simp
    · exact hsplit (s := base.toList) (by simp) rfl

theorem isAbsolute_join {base : String} (hb : base ≠ "") (name : String) :
    isAbsolute (join base name) = isAbsolute base := by
  have hne : base.toList ≠ [] := by simpa using hb
  have hhead (s : List Char) : (base.toList ++ s).head? = base.toList.head? := by
    rw [List.head?_append_of_ne_nil _ hne]
  rw [join, if_neg hb]
  split
  · simp [isAbsolute, hhead]
  · simp [isAbsolute, hhead]

end Path

namespace FileTree

mutual

/-- Trees without symbolic links. -/
def linkFree : FileTree → Bool
  | file _ => true
  | link _ => false
  | directory entries => linkFreeEntries entries

def linkFreeEntries : List (String × FileTree) → Bool
  | [] => true
  | (_, node) :: rest => node.linkFree && linkFreeEntries rest

end

theorem linkFree_of_lookup {entries : Entries} {name : String} {child : FileTree}
    (h : linkFreeEntries entries = true) (hl : entries.lookup name = some child) :
    child.linkFree = true := by
  induction entries with
  | nil => simp at hl
  | cons e rest ih =>
    obtain ⟨n, node⟩ := e
    rw [linkFreeEntries, Bool.and_eq_true] at h
    by_cases he : name = n
    · subst he
      obtain rfl : node = child := by simpa using hl
      exact h.1
    · have hne : (name == n) = false := beq_eq_false_iff_ne.mpr he
      exact ih h.2 (by simpa only [List.lookup_cons, hne] using hl)

theorem linkFree_at? {tree node : FileTree} {place : List String} (h : tree.linkFree = true)
    (ha : tree.at? place = some node) : node.linkFree = true := by
  induction place generalizing tree with
  | nil => exact Option.some.inj ha ▸ h
  | cons name rest ih =>
    cases tree with
    | file content => simp [at?] at ha
    | link target => simp [at?] at ha
    | directory entries =>
      cases hl : entries.lookup name with
      | none => simp [at?, hl] at ha
      | some child => exact ih (linkFree_of_lookup h hl) (by simpa [at?, hl] using ha)

/-- There is a link nowhere. -/
def NoLink (tree : FileTree) : Prop :=
  ∀ place target, tree.at? place ≠ some (link target)

theorem noLink_of_linkFree {tree : FileTree} (h : tree.linkFree = true) : tree.NoLink := by
  intro place target ha
  have hh := linkFree_at? h ha
  cases hh

theorem NoLink.lookup_ne {tree : FileTree} (h : tree.NoLink) {place : List String}
    {entries : Entries} (hd : tree.at? place = some (directory entries)) (name target : String) :
    entries.lookup name ≠ some (link target) := by
  rw [← at?_concat hd]
  exact h _ target

end FileTree

namespace Disk

open FileTree

/-- Without links a path that ends in a name leads to an entry of that name. -/
theorem Leads.parent {tree : FileTree} (hfree : tree.NoLink) {purpose : Purpose}
    {links : Nat} {start : List String} {steps : List Path.Step} {name : String} {target : Target}
    (h : Leads tree purpose links start (steps ++ [.enter name]) target) :
    ∃ parent entries, Leads tree .inspect links start steps (.found parent) ∧
      tree.at? parent = some (directory entries) ∧
      (target = .found (parent ++ [name]) ∨ target = .vacant (parent ++ [name])) := by
  generalize hs : steps ++ [.enter name] = all at h
  induction h generalizing steps with
  | arrive => simp at hs
  | move hd hm _ ih =>
    cases steps with
    | nil =>
      obtain ⟨rfl, -⟩ := List.cons.inj hs
      cases hm
    | cons step steps =>
      obtain ⟨rfl, hrest⟩ := List.cons.inj hs
      obtain ⟨parent, entries, hw, hp, ht⟩ := ih hrest
      exact ⟨parent, entries, .move hd hm hw, hp, ht⟩
  | @vacant links place name' entries hd hl =>
    obtain ⟨rfl, hlast⟩ := (List.append_eq_singleton_iff.mp hs).resolve_right (by simp)
    obtain rfl := Path.Step.enter.inj (List.cons.inj hlast).1
    exact ⟨place.reverse, entries, .arrive, hd, .inr (by rw [List.reverse_cons])⟩
  | @enter links place name' rest target entries child hd hw hl hlink h ih =>
    cases steps with
    | nil =>
      obtain ⟨hname, rfl⟩ := List.cons.inj hs
      obtain rfl := Path.Step.enter.inj hname
      cases h
      exact ⟨place.reverse, entries, .arrive, hd, .inl (by rw [List.reverse_cons])⟩
    | cons step steps =>
      obtain ⟨rfl, hrest⟩ := List.cons.inj hs
      obtain ⟨parent, inner, hwalk, hp, ht⟩ := ih hrest
      exact ⟨parent, inner, .enter hd (by simp) hl hlink hwalk, hp, ht⟩
  | inspect hd hl _ => exact absurd hl (hfree.lookup_ne hd _ _)
  | through hd _ hl _ _ _ => exact absurd hl (hfree.lookup_ne hd _ _)

theorem Leads.slash {tree : FileTree} {purpose : Purpose} (hpurpose : purpose ≠ .write)
    {links : Nat} {start place : List String} {steps : List Path.Step} {entries : Entries}
    (h : Leads tree purpose links start steps (.found place))
    (hp : tree.at? place = some (directory entries)) :
    Leads tree purpose links start (steps ++ [.slash]) (.found place) := by
  generalize ht : Target.found place = target at h
  induction h with
  | arrive =>
    obtain rfl := Target.found.inj ht
    exact .move hp rfl .arrive
  | move hd hm _ ih => exact .move hd hm (ih ht)
  | vacant => cases ht
  | enter hd _ hl hlink _ ih =>
    exact .enter hd (fun hw => hpurpose hw.1) hl hlink (ih ht)
  | inspect hd hl _ =>
    obtain rfl := Target.found.inj ht
    rw [List.reverse_cons, at?_concat hd, hl] at hp
    cases hp
  | through hd _ hl _ _ ih =>
    have hh := ih ht
    rw [List.append_assoc] at hh
    exact .through hd (fun hw => hpurpose hw.1) hl (by simp) hh

theorem resolve_join {disk : Disk} (hfree : disk.tree.NoLink) {base name : String}
    (hname : Path.isEntryName name = true) {purpose : Purpose} {target : Target}
    (h : disk.resolve purpose (Path.join base name) = .ok target) :
    ∃ parent entries, disk.tree.at? parent = some (directory entries) ∧
      (target = .found (parent ++ [name]) ∨ target = .vacant (parent ++ [name])) ∧
      (base ≠ "" → disk.resolve .inspect base = .ok (.found parent)) := by
  obtain ⟨-, hleads⟩ := resolve_ok_iff.mp h
  rw [Path.steps_join hname] at hleads
  obtain ⟨parent, entries, hwalk, hp, ht⟩ := hleads.parent hfree
  refine ⟨parent, entries, hp, ht, fun hb => resolve_ok_iff.mpr ⟨hb, ?_⟩⟩
  rw [Path.isAbsolute_join hb] at hwalk
  rw [Path.steps_eq]
  by_cases hends : Path.endsInSlash base = true
  · rw [if_pos hends]
    exact hwalk.slash (by simp) hp
  · rw [if_neg hends, List.append_nil]
    exact hwalk

end Disk

end ImportLedger
