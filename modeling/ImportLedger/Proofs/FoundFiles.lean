import ImportLedger.Proofs.FileOrder
import ImportLedger.Proofs.Relisting
import ImportLedger.Proofs.SourceEdits

/-! The search for source files below a directory: which files it finds, in which order, and that it
does not matter how directories list what they hold. -/

namespace ImportLedger

open FileTree

namespace Disk

/-- What can be read at the end of a path can be looked at there, unless a link ends the path. -/
theorem Leads.inspect_or_link {tree : FileTree} {purpose : Purpose} {links : Nat}
    {place : List String} {steps : List Path.Step} {target : Target} (hread : purpose = .read)
    (h : Leads tree purpose links place steps target) :
    Leads tree .inspect links place steps target ∨
      ∃ found text, Leads tree .inspect links place steps (.found found) ∧
        tree.at? found = some (link text) := by
  induction h with
  | arrive => exact .inl .arrive
  | move hd hm _ ih =>
    rcases ih with hi | ⟨found, text, hi, ha⟩
    · exact .inl (.move hd hm hi)
    · exact .inr ⟨found, text, .move hd hm hi, ha⟩
  | vacant hd hl => exact .inl (.vacant hd hl)
  | enter hd _ hl hlink _ ih =>
    rcases ih with hi | ⟨found, text, hi, ha⟩
    · exact .inl (.enter hd (by simp) hl hlink hi)
    · exact .inr ⟨found, text, .enter hd (by simp) hl hlink hi, ha⟩
  | inspect _ _ hp => cases hread.symm.trans hp
  | @through _ place name text rest _ _ hd _ hl _ _ ih =>
    cases rest with
    | nil =>
      refine .inr ⟨_, text, .inspect hd hl rfl, ?_⟩
      rw [List.reverse_cons, at?_concat hd, hl]
    | cons step rest =>
      rcases ih with hi | ⟨found, other, hi, ha⟩
      · exact .inl (.through hd (by simp) hl (by simp) hi)
      · exact .inr ⟨found, other, .through hd (by simp) hl (by simp) hi, ha⟩

theorem searched_of_read {disk : Disk} {root : String} {entries : Entries}
    (h : disk.lookup .read root = .ok (.directory entries)) :
    disk.searched root = .ok (.directory entries) := by
  obtain ⟨place, hr, ha⟩ := lookup_ok h
  obtain ⟨hne, hleads⟩ := resolve_ok_iff.mp hr
  rcases hleads.inspect_or_link rfl with hi | ⟨found, text, hi, hlink⟩
  · exact searched_of_lookup (lookup_of_resolve (resolve_ok_iff.mpr ⟨hne, hi⟩) ha) (by simp)
  · rw [searched, lookup_of_resolve (resolve_ok_iff.mpr ⟨hne, hi⟩) hlink, h]
    rfl

end Disk

namespace Path

def below (root : String) (names : List String) : String := join root ("/".intercalate names)

/-- The names of a path as they are stored. -/
def octets (path : String) : List Text.Utf8.Bytes :=
  ((path.toList.splitOn '/').filter (!·.isEmpty)).map Text.Utf8.encode

theorem octets_below {names : List String} (h : ∀ n ∈ names, isEntryName n = true)
    (hne : names ≠ []) (root : String) :
    octets (below root names) =
      octets root ++ names.map fun name => Text.Utf8.encode name.toList := by
  let kept (s : List Char) : List (List Char) := (s.splitOn '/').filter (!·.isEmpty)
  have hnames : kept ("/".intercalate names).toList = names.map String.toList := by
    show List.filter _ _ = _
    rw [splitOn_intercalate h hne, List.filter_eq_self]
    intro s hs
    obtain ⟨n, hn, rfl⟩ := List.mem_map.mp hs
    have hn' := h n hn
    simp only [isEntryName, Bool.and_eq_true, bne_iff_ne] at hn'
    simpa using hn'.1.1.1
  have happend (s t : List Char) : kept (s ++ '/' :: t) = kept s ++ kept t := by
    show List.filter _ _ = _
    rw [List.splitOn_append_cons_self, List.filter_append]
  have hkept : kept (below root names).toList = kept root.toList ++ names.map String.toList := by
    rw [← hnames, below, join]
    split
    · rename_i hroot
      rw [hroot]
      simp [kept]
    · split
      · rename_i hends
        -- The slash that ends the root stands where one would be put between.
        obtain ⟨s, hs⟩ := List.getLast?_eq_some_iff.mp (of_decide_eq_true hends)
        have hslash : (root ++ "/".intercalate names).toList =
            s ++ '/' :: ("/".intercalate names).toList := by
          simp [hs]
        rw [hslash, happend, hs, happend]
        simp [kept]
      · have hslash : (root ++ "/" ++ "/".intercalate names).toList =
            root.toList ++ '/' :: ("/".intercalate names).toList := by
          simp
        rw [hslash, happend]
  show (kept _).map _ = (kept _).map _ ++ _
  rw [hkept, List.map_append, List.map_map]
  rfl

end Path

namespace SourceFile

variable {excluded : List String}

/-- Files of two directories in the order of a search. The order leaves no choice. -/
theorem sortBy_ofEntries_eq {entries entries' : Entries}
    (hw : wellFormedEntries entries = true) (hw' : wellFormedEntries entries' = true)
    (h : ∀ file, file ∈ ofEntries excluded entries ↔ file ∈ ofEntries excluded entries') :
    sortBy le (ofEntries excluded entries) = sortBy le (ofEntries excluded entries') := by
  have hnodup : ((ofEntries excluded entries).map (·.relative)).Nodup :=
    nodup_relative_ofEntries hw
  have hperm : (ofEntries excluded entries).Perm (ofEntries excluded entries') :=
    (List.perm_ext_iff_of_nodup hnodup.of_map (nodup_relative_ofEntries hw').of_map).mpr h
  refine (((sortBy_perm le _).trans hperm).trans (sortBy_perm le _).symm).eq_of_pairwise ?_
    (pairwise_sortBy le_total le_trans _) (pairwise_sortBy le_total le_trans _)
  intro a b ha hb hab hba
  have ha' := (sortBy_perm le _).mem_iff.mp ha
  have hb' := (h b).mpr ((sortBy_perm le _).mem_iff.mp hb)
  exact List.inj_on_of_nodup_map hnodup ha' hb'
    (List.le_antisymm (le_iff.mp hab) (le_iff.mp hba))

theorem ofStart_of_sameNodes {a b : FileTree} (h : SameNodes a b) (ha : a.wellFormed = true)
    (hb : b.wellFormed = true) (root : String) :
    ofStart root excluded a = ofStart root excluded b := by
  cases a with
  | file content => rw [h.eq_file]
  | link target => rw [h.eq_link]
  | directory entries =>
    obtain ⟨entries', rfl⟩ := h.eq_directory
    have hw : wellFormedEntries entries = true := wellFormedEntries_entries ha
    have hw' : wellFormedEntries entries' = true := wellFormedEntries_entries hb
    rw [ofStart_directory, ofStart_directory]
    refine sortBy_ofEntries_eq hw hw' fun file => ?_
    rw [mem_ofEntries_iff hw, mem_ofEntries_iff hw', h.at?_file_iff]

theorem map_ofStart_of_sameNodes {e e' : Except FileError FileTree} (h : SameOutcome SameNodes e e')
    (he : ∀ start, e = .ok start → start.wellFormed = true)
    (he' : ∀ start, e' = .ok start → start.wellFormed = true) (root : String)
    (excluded : List String) :
    e.map (ofStart root excluded) = e'.map (ofStart root excluded) := by
  cases h with
  | error => rfl
  | ok h => exact congrArg Except.ok (ofStart_of_sameNodes h (he _ rfl) (he' _ rfl) root)

end SourceFile

/-- A search does not depend on the order in which directories list what they hold. -/
theorem findSources_of_reorders {disk : Disk} {tree : FileTree} (hw : disk.tree.wellFormed = true)
    (h : Relation.ReflTransGen Reorders disk.tree tree) (root : String) (excluded : List String) :
    findSources { disk with tree } root excluded = findSources disk root excluded := by
  obtain ⟨hw', hsame⟩ := preserves_of_reorders h hw
  have hstart := Disk.searched_of_sameNodes hsame root
  have hmap := SourceFile.map_ofStart_of_sameNodes hstart
    (fun _ => Disk.wellFormed_searched hw) (fun _ => Disk.wellFormed_searched hw') root excluded
  rw [findSources_eq, findSources_eq, hmap]

/-- Searching below a root that is a directory or links to one. The paths found lead from the root
to the files at admitted places, each once and in the order of their names as they are stored. The
order in which directories list what they hold has no effect. -/
theorem findPaths_of_directory {disk : Disk} {root : String} {entries : Entries}
    (hw : disk.tree.wellFormed = true) (hroot : disk.lookup .read root = .ok (.directory entries))
    (excluded : List String) :
    ∃ found : List (List String),
      findPaths disk root excluded = .ok (found.map (Path.below root)) ∧
      (found.map (Path.below root)).Nodup ∧
      (found.map (Path.below root)).Pairwise (fun a b => Path.octets a < Path.octets b) ∧
      (∀ names, names ∈ found ↔
        (∃ content, (directory entries).at? names = some (.file content)) ∧
          Admitted excluded names) ∧
      ∀ tree, Relation.ReflTransGen Reorders disk.tree tree →
        findPaths { disk with tree } root excluded = findPaths disk root excluded := by
  have hstart := Disk.searched_of_read hroot
  have hentries : wellFormedEntries entries = true :=
    wellFormedEntries_entries (Disk.wellFormed_searched hw hstart)
  let files := sortBy SourceFile.le (SourceFile.ofEntries excluded entries)
  have hfiles : findSources disk root excluded = .ok files :=
    findSources_ok_iff.mpr ⟨_, hstart, rfl⟩
  have hmem {file : SourceFile} : file ∈ files ↔ file ∈ SourceFile.ofEntries excluded entries :=
    (sortBy_perm _ _).mem_iff
  have hnames {file : SourceFile} (h : file ∈ files) :
      file.relative ≠ [] ∧ ∀ n ∈ file.relative, Path.isEntryName n = true := by
    obtain ⟨⟨_, _, _, hr⟩, hn⟩ := SourceFile.relative_of_mem_ofEntries hentries (hmem.mp h)
    exact ⟨by simp [hr], hn⟩
  have hpaths : findPaths disk root excluded =
      .ok ((files.map (·.relative)).map (Path.below root)) := by
    rw [findPaths, hfiles, List.map_map]
    refine congrArg Except.ok (List.map_congr_left fun file hf => ?_)
    have hne : ¬file.relative.isEmpty = true := by simpa using (hnames hf).1
    exact if_neg hne
  have horder : ((files.map (·.relative)).map (Path.below root)).Pairwise
      (fun a b => Path.octets a < Path.octets b) := by
    rw [List.pairwise_map, List.pairwise_map]
    refine (findSources_pairwise hw hfiles).imp_of_mem fun {a b} ha hb hab => ?_
    rw [Path.octets_below (hnames ha).2 (hnames ha).1,
      Path.octets_below (hnames hb).2 (hnames hb).1]
    exact List.append_left_lt hab
  refine ⟨files.map (·.relative), hpaths, ?_, horder, ?_, ?_⟩
  · refine horder.imp fun {a b} hab he => ?_
    rw [he] at hab
    exact List.lt_irrefl _ hab
  · intro names
    rw [List.mem_map]
    constructor
    · rintro ⟨file, hf, rfl⟩
      obtain ⟨ha, had⟩ := (SourceFile.mem_ofEntries_iff hentries).mp (hmem.mp hf)
      exact ⟨⟨file.content, ha⟩, had⟩
    · rintro ⟨⟨content, ha⟩, had⟩
      have hm : ⟨names, content⟩ ∈ SourceFile.ofEntries excluded entries :=
        (SourceFile.mem_ofEntries_iff hentries).mpr ⟨ha, had⟩
      exact ⟨⟨names, content⟩, hmem.mpr hm, rfl⟩
  · intro tree hreorders
    rw [findPaths, findPaths, findSources_of_reorders hw hreorders]

/-- A root that links to a directory, with an excluded directory, a link and a name that is all
extension below it. A directory goes before a file whose name its own begins. -/
theorem findPaths_of_directory_link :
    let entries : Entries := [("dist", .directory [("x.js", .file [])]), (".js", .file []),
      ("a.js", .file []), ("a", .directory [("web.TSX", .file [])]), ("b.js", .link "a.js")]
    let disk : Disk := ⟨.directory [("web", .link "app"), ("app", .directory entries)], []⟩
    let relisted : FileTree :=
      .directory [("web", .link "app"), ("app", .directory entries.reverse)]
    disk.tree.wellFormed = true ∧ disk.lookup .read "web" = .ok (.directory entries) ∧
      findPaths disk "web" ["dist", "web"] = .ok ["web/a/web.TSX", "web/a.js"] ∧
      Relation.ReflTransGen Reorders disk.tree relisted ∧
      findPaths { disk with tree := relisted } "web" ["dist", "web"] =
        .ok ["web/a/web.TSX", "web/a.js"] := by
  intro entries disk relisted
  have hw : disk.tree.wellFormed = true := by decide
  have hweb : Path.steps "web" = [.enter "web"] := by decide
  have happ : Path.steps "app" = [.enter "app"] := by decide
  have hlink : disk.tree.entries.lookup "web" = some (.link "app") := rfl
  have hdirectory : disk.tree.entries.lookup "app" = some (.directory entries) := rfl
  have hroot : disk.lookup .read "web" = .ok (.directory entries) := by
    simp only [FileTree.entries, disk] at hlink hdirectory
    simp [Disk.lookup, Disk.resolve, hweb, happ, Disk.follow, Disk.linkBound, disk, at?,
      Path.isAbsolute, hlink, hdirectory, bind, Except.bind]
  have hfound : findPaths disk "web" ["dist", "web"] = .ok ["web/a/web.TSX", "web/a.js"] := by
    rw [findPaths, findSources_eq, Disk.searched_of_read hroot]
    decide +kernel
  have hreorders : Relation.ReflTransGen Reorders disk.tree relisted :=
    .single (@Reorders.inside [("web", .link "app")] [] "app" _ _
      (.here (List.reverse_perm entries).symm))
  obtain ⟨-, -, -, -, -, hlisted⟩ := findPaths_of_directory hw hroot ["dist", "web"]
  exact ⟨hw, hroot, hfound, hreorders, (hlisted relisted hreorders).trans hfound⟩

end ImportLedger
