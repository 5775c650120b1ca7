import ImportLedger.Proofs.FileEdits

/-! Writing a file. It takes one place, which can then be read by the path that was written to, and
no other path leads anywhere else. -/

namespace ImportLedger

namespace FileTree

variable {tree : FileTree} {place : List String}

theorem Entries.put_eq_self {entries : Entries} {name : String} {child : FileTree}
    (h : entries.lookup name = some child) : entries.put name child = entries := by
  induction entries with
  | nil => cases h
  | cons e rest ih =>
    obtain ⟨n, node⟩ := e
    by_cases hn : n = name
    · subst hn
      obtain rfl : node = child := by simpa using h
      rw [put, if_pos rfl]
    · have hb : (name == n) = false := beq_eq_false_iff_ne.mpr (Ne.symm hn)
      rw [put, if_neg hn, ih (by simpa only [List.lookup_cons, hb] using h)]

theorem put_eq_self {node : FileTree} (h : tree.at? place = some node) :
    tree.put place node = tree := by
  induction place generalizing tree with
  | nil => exact (Option.some.inj h).symm
  | cons name rest ih =>
    obtain ⟨child, hl, hc⟩ := at?_cons_eq_some.mp h
    rw [put_cons hl, ih hc]
    cases tree with
    | file content => cases hl
    | link target => cases hl
    | directory entries => exact congrArg directory (Entries.put_eq_self hl)

theorem eq_link_of_shape {node : FileTree} {text : String} (h : node.shape = link text) :
    node = link text := by
  cases node with
  | link target => exact h
  | file content => cases h
  | directory entries => cases h

/-- A directory goes on to hold what it held, but for what is written. -/
theorem directory_put (h : Writable tree place) {top : List String} {entries : Entries}
    (hd : tree.at? top = some (directory entries)) (new : Text.Utf8.Bytes) :
    ∃ entries', (tree.put place (file new)).at? top = some (directory entries') ∧
      ∀ name, top ++ [name] ≠ place →
        (entries'.lookup name).map shape = (entries.lookup name).map shape := by
  have hne : top ≠ place := by
    rintro rfl
    obtain ⟨old, he⟩ := h.eq_file hd
    cases he
  have hshape := shape_at?_put_of_ne h hne new
  obtain ⟨entries', he⟩ := Disk.eq_directory_of_shape hshape hd
  refine ⟨entries', he, fun name hname => ?_⟩
  rw [← at?_concat hd, ← at?_concat he]
  exact shape_at?_put_of_ne h hname new

theorem directory_of_put (h : Writable tree place) {new : Text.Utf8.Bytes} {top : List String}
    {entries : Entries} (hd : (tree.put place (file new)).at? top = some (directory entries)) :
    ∃ entries', tree.at? top = some (directory entries') ∧
      ∀ name, top ++ [name] ≠ place →
        (entries'.lookup name).map shape = (entries.lookup name).map shape := by
  have hne : top ≠ place := by
    rintro rfl
    rw [at?_put_self] at hd
    cases hd
  have hshape := shape_at?_put_of_ne h hne new
  obtain ⟨entries', he⟩ := Disk.eq_directory_of_shape hshape.symm hd
  refine ⟨entries', he, fun name hname => ?_⟩
  rw [← at?_concat hd, ← at?_concat he]
  exact (shape_at?_put_of_ne h hname new).symm

theorem lookup_of_shape {entries entries' : Entries} {name : String} {child : FileTree}
    (h : (entries'.lookup name).map shape = (entries.lookup name).map shape)
    (hl : entries.lookup name = some child) :
    ∃ child', entries'.lookup name = some child' ∧ child'.shape = child.shape := by
  rw [hl] at h
  exact Option.map_eq_some_iff.mp h

theorem lookup_none_of_shape {entries entries' : Entries} {name : String}
    (h : (entries'.lookup name).map shape = (entries.lookup name).map shape)
    (hl : entries.lookup name = none) : entries'.lookup name = none := by
  rw [hl] at h
  exact Option.map_eq_none_iff.mp h

end FileTree

namespace Disk

open FileTree

/-- Where a path leads once a file has been written. -/
def Target.written (place : List String) (target : Target) : Target :=
  if target = .vacant place then .found place else target

variable {tree : FileTree} {place : List String} {purpose : Purpose} {links : Nat}
  {start : List String} {steps : List Path.Step} {target : Target}

theorem Leads.exists_of_vacant (h : Leads tree purpose links start steps (.vacant place)) :
    ∃ parent name entries, place = parent ++ [name] ∧
      tree.at? parent = some (directory entries) ∧ entries.lookup name = none := by
  generalize ht : Target.vacant place = target at h
  induction h with
  | arrive => cases ht
  | move _ _ _ ih => exact ih ht
  | @vacant _ top name entries hd hl =>
    exact ⟨top.reverse, name, entries, (Target.vacant.inj ht).trans List.reverse_cons, hd, hl⟩
  | enter _ _ _ _ _ ih => exact ih ht
  | inspect => cases ht
  | through _ _ _ _ _ ih => exact ih ht

theorem Leads.written (hw : Writable tree place) (new : Text.Utf8.Bytes)
    (h : Leads tree purpose links start steps target) :
    Leads (tree.put place (file new)) purpose links start steps (target.written place) := by
  have hlink {top : List String} {entries : Entries} {name text : String}
      (hd : tree.at? top = some (directory entries))
      (hl : entries.lookup name = some (link text)) : top ++ [name] ≠ place := by
    rintro rfl
    obtain ⟨old, he⟩ := hw.eq_file ((at?_concat hd name).trans hl)
    cases he
  induction h with
  | arrive => exact .arrive
  | move hd hm _ ih =>
    obtain ⟨_, hd', -⟩ := directory_put hw hd new
    exact .move hd' hm ih
  | @vacant links top name entries hd hl =>
    obtain ⟨entries', hd', hbeside⟩ := directory_put hw hd new
    by_cases hplace : top.reverse ++ [name] = place
    · -- The path led to where the file is now.
      have hl' : entries'.lookup name = some (file new) := by
        rw [← at?_concat hd', hplace, at?_put_self]
      have he : Target.written place (.vacant (name :: top).reverse) =
          .found (name :: top).reverse := by
        rw [List.reverse_cons, hplace]
        exact if_pos rfl
      rw [he]
      exact .enter hd' (by simp) hl' (by simp) .arrive
    · have he : Target.written place (.vacant (name :: top).reverse) =
          .vacant (name :: top).reverse := by
        refine if_neg fun h => hplace ?_
        rw [← List.reverse_cons]
        exact Target.vacant.inj h
      rw [he]
      exact .vacant hd' (lookup_none_of_shape (hbeside name hplace) hl)
  | @enter links top name rest target entries child hd hwrite hl hno _ ih =>
    obtain ⟨entries', hd', hbeside⟩ := directory_put hw hd new
    by_cases hplace : top.reverse ++ [name] = place
    · have hl' : entries'.lookup name = some (file new) := by
        rw [← at?_concat hd', hplace, at?_put_self]
      exact .enter hd' hwrite hl' (by simp) ih
    · obtain ⟨child', hl', hs⟩ := lookup_of_shape (hbeside name hplace) hl
      refine .enter hd' hwrite hl' (fun text he => hno text ?_) ih
      exact eq_link_of_shape (by rw [← hs, he]; rfl)
  | @inspect links top name text entries hd hl hp =>
    obtain ⟨entries', hd', hbeside⟩ := directory_put hw hd new
    obtain ⟨child', hl', hs⟩ := lookup_of_shape (hbeside name (hlink hd hl)) hl
    exact .inspect hd' (eq_link_of_shape hs ▸ hl') hp
  | @through links top name text rest target entries hd hwrite hl hp _ ih =>
    obtain ⟨entries', hd', hbeside⟩ := directory_put hw hd new
    obtain ⟨child', hl', hs⟩ := lookup_of_shape (hbeside name (hlink hd hl)) hl
    exact .through hd' hwrite (eq_link_of_shape hs ▸ hl') hp ih

/-- A path that does not lead to what was written has always led where it leads. -/
theorem Leads.of_written (hw : Writable tree place) {new : Text.Utf8.Bytes}
    (h : Leads (tree.put place (file new)) purpose links start steps target)
    (hne : target ≠ .found place) : Leads tree purpose links start steps target := by
  have hlookup {top : List String} {entries : Entries} (name : String)
      (hd : (tree.put place (file new)).at? top = some (directory entries))
      (hl : entries.lookup name ≠ some (file new)) : top ++ [name] ≠ place := by
    rintro rfl
    rw [← at?_concat hd, at?_put_self] at hl
    exact hl rfl
  induction h with
  | arrive => exact .arrive
  | move hd hm _ ih =>
    obtain ⟨_, hd', -⟩ := directory_of_put hw hd
    exact .move hd' hm (ih hne)
  | @vacant links top name entries hd hl =>
    obtain ⟨entries', hd', hbeside⟩ := directory_of_put hw hd
    have hplace := hlookup name hd (by simp [hl])
    exact .vacant hd' (lookup_none_of_shape (hbeside name hplace) hl)
  | @enter links top name rest target entries child hd hwrite hl hno hwalk ih =>
    obtain ⟨entries', hd', hbeside⟩ := directory_of_put hw hd
    by_cases hplace : top.reverse ++ [name] = place
    · -- Nothing lies behind a file, so the path ends here.
      have hfile {inner : Entries} :
          (tree.put place (file new)).at? (name :: top).reverse ≠ some (directory inner) := by
        rw [List.reverse_cons, hplace, at?_put_self]
        simp
      cases hwalk with
      | arrive => exact absurd (by rw [List.reverse_cons, hplace]) hne
      | move hd _ _ => exact absurd hd hfile
      | vacant hd _ => exact absurd hd hfile
      | enter hd _ _ _ _ => exact absurd hd hfile
      | inspect hd _ _ => exact absurd hd hfile
      | through hd _ _ _ _ => exact absurd hd hfile
    · obtain ⟨child', hl', hs⟩ := lookup_of_shape (hbeside name hplace) hl
      refine .enter hd' hwrite hl' (fun text he => hno text ?_) (ih hne)
      exact eq_link_of_shape (by rw [← hs, he]; rfl)
  | @inspect links top name text entries hd hl hp =>
    obtain ⟨entries', hd', hbeside⟩ := directory_of_put hw hd
    have hplace := hlookup name hd (by simp [hl])
    obtain ⟨child', hl', hs⟩ := lookup_of_shape (hbeside name hplace) hl
    exact .inspect hd' (eq_link_of_shape hs ▸ hl') hp
  | @through links top name text rest target entries hd hwrite hl hp _ ih =>
    obtain ⟨entries', hd', hbeside⟩ := directory_of_put hw hd
    have hplace := hlookup name hd (by simp [hl])
    obtain ⟨child', hl', hs⟩ := lookup_of_shape (hbeside name hplace) hl
    exact .through hd' hwrite (eq_link_of_shape hs ▸ hl') hp (ih hne)

/-- The place of the file that is written to a path. -/
def writePlace (disk : Disk) (path : String) : Except FileError (List String) := do
  match ← disk.resolve .write path with
  | .vacant place => .ok place
  | .found place =>
    match disk.tree.at? place with
    | some (.file _) => .ok place
    | _ => .error .isDirectory

theorem writeFile_eq (disk : Disk) (path : String) (content : Text.Utf8.Bytes) :
    disk.writeFile path content =
      (disk.writePlace path).map fun place => disk.withContent place content := by
  rw [writeFile, writePlace]
  cases disk.resolve .write path with
  | error cause => rfl
  | ok target =>
    cases target with
    | vacant place => rfl
    | found place =>
      simp only [bind, Except.bind]
      cases disk.tree.at? place with
      | none => rfl
      | some node => cases node <;> rfl

variable {disk : Disk} {path : String}

theorem resolve_withContent_of_writable (hw : Writable disk.tree place) (new : Text.Utf8.Bytes)
    (h : disk.resolve purpose path = .ok target) :
    (disk.withContent place new).resolve purpose path = .ok (target.written place) := by
  obtain ⟨hne, hleads⟩ := resolve_ok_iff.mp h
  exact resolve_ok_iff.mpr ⟨hne, hleads.written hw new⟩

theorem resolve_of_withContent (hw : Writable disk.tree place) {new : Text.Utf8.Bytes}
    (h : (disk.withContent place new).resolve purpose path = .ok target)
    (hother : target ≠ .found place) : disk.resolve purpose path = .ok target := by
  obtain ⟨hne, hleads⟩ := resolve_ok_iff.mp h
  exact resolve_ok_iff.mpr ⟨hne, hleads.of_written hw hother⟩

theorem resolve_read_of_write (h : disk.resolve .write path = .ok target) :
    disk.resolve .read path = .ok target := by
  obtain ⟨hne, hleads⟩ := resolve_ok_iff.mp h
  exact resolve_ok_iff.mpr ⟨hne, hleads.read (by simp)⟩

theorem writable_of_vacant (h : disk.resolve purpose path = .ok (.vacant place)) :
    Writable disk.tree place ∧ disk.tree.at? place = none := by
  obtain ⟨-, hleads⟩ := resolve_ok_iff.mp h
  obtain ⟨parent, name, entries, rfl, hp, hl⟩ := hleads.exists_of_vacant
  exact ⟨.append hp (.vacant hl), (at?_concat hp name).trans hl⟩

/-- A file is written where its path leads to, or would lead to if it were there. -/
theorem writePlace_ok (h : disk.writePlace path = .ok place) :
    Writable disk.tree place ∧ ∃ target, disk.resolve .write path = .ok target ∧
      target.written place = .found place ∧
      ∀ node, disk.tree.at? place = some node → target = .found place := by
  obtain ⟨target, hr, h⟩ := ok_of_bind h
  cases target with
  | vacant other =>
    obtain rfl := Except.ok.inj h
    obtain ⟨hw, hnone⟩ := writable_of_vacant hr
    refine ⟨hw, _, hr, if_pos rfl, fun node hn => ?_⟩
    rw [hnone] at hn
    cases hn
  | found other =>
    cases ha : disk.tree.at? other with
    | none => simp [ha] at h
    | some node =>
      cases node with
      | link text => simp [ha] at h
      | directory entries => simp [ha] at h
      | file old =>
        obtain rfl : other = place := by simpa [ha] using h
        exact ⟨writable_of_file ha, _, hr, if_neg (by simp), fun _ _ => rfl⟩

theorem at?_withContent (disk : Disk) (place : List String) (new : Text.Utf8.Bytes) :
    (disk.withContent place new).tree.at? place = some (.file new) := at?_put_self ..

theorem withContent_withContent (disk : Disk) (place : List String) (new : Text.Utf8.Bytes) :
    (disk.withContent place new).withContent place new = disk.withContent place new := by
  rw [withContent, put_eq_self (at?_withContent disk place new)]

/-- What has been written takes the same place when it is written again. -/
theorem writePlace_withContent (h : disk.writePlace path = .ok place) (new : Text.Utf8.Bytes) :
    (disk.withContent place new).writePlace path = .ok place := by
  obtain ⟨hw, target, hr, ht, -⟩ := writePlace_ok h
  have hr' := resolve_withContent_of_writable hw new hr
  rw [ht] at hr'
  rw [writePlace, hr']
  simp only [bind, Except.bind, at?_withContent]

theorem readFile_written (h : disk.writePlace path = .ok place) (new : Text.Utf8.Bytes) :
    (disk.withContent place new).readFile path = .ok new := by
  obtain ⟨hw, target, hr, ht, -⟩ := writePlace_ok h
  have hr' := resolve_withContent_of_writable hw new (resolve_read_of_write hr)
  rw [ht] at hr'
  rw [readFile, lookup_of_resolve hr' (at?_withContent disk place new)]
  rfl

theorem readFile_ok {content : Text.Utf8.Bytes} (h : disk.readFile path = .ok content) :
    ∃ other, disk.resolve .read path = .ok (.found other) ∧
      disk.tree.at? other = some (.file content) := by
  obtain ⟨node, hl, hnode⟩ := ok_of_bind h
  obtain ⟨other, hr, ha⟩ := lookup_ok hl
  cases node with
  | link target => cases hnode
  | directory entries => cases hnode
  | file content' =>
    obtain rfl : content' = content := Except.ok.inj hnode
    exact ⟨other, hr, ha⟩

/-- Whoever reads another file reads what was there before. -/
theorem readFile_withContent (hw : Writable disk.tree place) {content : Text.Utf8.Bytes}
    (hread : disk.readFile path = .ok content)
    (hne : disk.resolve .read path ≠ .ok (.found place)) (new : Text.Utf8.Bytes) :
    (disk.withContent place new).readFile path = .ok content := by
  obtain ⟨other, hr, ha⟩ := readFile_ok hread
  have hother : other ≠ place := fun he => hne (he ▸ hr)
  have hr' := resolve_withContent_of_writable hw new hr
  rw [readFile, lookup_of_resolve hr' (at?_put_of_ne hw ha hother new)]
  rfl

end Disk

end ImportLedger
