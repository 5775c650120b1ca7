import ImportLedger.Proofs.Assembly
import ImportLedger.Proofs.FileRecords
import ImportLedger.Proofs.FileWrites

/-! What a scan says of one source file comes from that file and from the manifest. -/

namespace ImportLedger

/-- Reports with the same records beside those of one file. -/
structure Report.AgreesBeside (label : String) (report other : Report) : Prop where
  usage : report.usage.filter (·.file != label) = other.usage.filter (·.file != label)
  requires : report.requires.filter (·.file != label) = other.requires.filter (·.file != label)
  missing : report.missing.filter (·.file != label) = other.missing.filter (·.file != label)

theorem Scan.report_agreesBeside {includeDev : Bool} {sets : DependencySets}
    {files : List SourceFile} {report other : Report} {file : SourceFile}
    {new : Text.Utf8.Bytes} (h : Scan.report includeDev sets files = .ok other)
    (h' : Scan.report includeDev sets (files.map (SourceFile.withContent file.relative new)) =
      .ok report) : report.AgreesBeside file.label other := by
  rw [Report.assemble_ok h, Report.assemble_ok h']
  exact {
    usage := filter_flatMap_withContent (fun _ _ => file_of_mem_usage) files file new
    requires := filter_flatMap_withContent (fun _ _ => file_of_mem_requires) files file new
    missing := filter_flatMap_withContent (fun _ _ => file_of_mem_missing) files file new }

theorem Scan.readManifest_withContent {disk : Disk} {config : Config} {sets : DependencySets}
    {place : List String} (h : readManifest disk config = .ok sets)
    (hw : FileTree.Writable disk.tree place)
    (hne : disk.resolve .read config.manifestPath ≠ .ok (.found place))
    (new : Text.Utf8.Bytes) : readManifest (disk.withContent place new) config = .ok sets := by
  obtain ⟨lines, hl, hs⟩ := ok_of_bind h
  have hread := ok_of_mapError hl
  unfold readLines at hread
  split at hread
  · rename_i content hcontent
    rw [readManifest, readLines, Disk.readFile_withContent hw hcontent hne new]
    obtain rfl := Except.ok.inj hread
    exact hs
  · cases hread

/-- The records of a report file by file. Each file has its own label, and to give another content
to one to which the path of the manifest does not lead changes no record of another. -/
theorem scan_by_file {disk : Disk} {config : Config} {report : Report}
    (hw : disk.tree.wellFormed = true) (h : scan disk config = .ok report) :
    ∃ sets files top, Scan.readManifest disk config = .ok sets ∧
      findSources disk config.root config.excludedDirectories = .ok files ∧
      (files.map SourceFile.label).Nodup ∧
      GroupedByFile UsageRecord.file UsageRecord.line files (fun file =>
        let lines := linesOfBytes file.content
        usageRecords lines file.label (findDeclarations lines file.label sets.toList))
        report.usage ∧
      GroupedByFile RequireRecord.file RequireRecord.line files (fun file =>
        findRequires (linesOfBytes file.content) file.label sets.toList) report.requires ∧
      GroupedByFile MissingRecord.file MissingRecord.line files (fun file =>
        findMissing (linesOfBytes file.content) file.label sets) report.missing ∧
      disk.resolve .read config.root = .ok (.found top) ∧
      ∀ file ∈ files, disk.tree.at? (top ++ file.relative) = some (.file file.content) ∧
        (disk.resolve .read config.manifestPath ≠ .ok (.found (top ++ file.relative)) →
          ∀ new, ∃ report', scan (disk.withContent (top ++ file.relative) new) config =
            .ok report' ∧ report'.AgreesBeside file.label report) := by
  obtain ⟨sets, files, hs, hf, hr⟩ := scan_ok h
  obtain ⟨start, hstart, hfiles⟩ := findSources_ok_iff.mp hf
  obtain ⟨top, node, ht, -, -⟩ := Disk.searched_ok hstart
  have hlabels := nodup_label_of_findSources hw hf
  have horder := findSources_pairwise hw hf
  have hreport := Report.assemble_ok hr
  have hat (file : SourceFile) (hm : file ∈ files) :
      disk.tree.at? (top ++ file.relative) = some (.file file.content) := by
    have hwell := Disk.wellFormed_searched hw hstart
    exact Disk.at?_of_searched hstart ht (SourceFile.at?_of_mem_ofStart hwell (hfiles ▸ hm))
  refine ⟨sets, files, top, hs, hf, hlabels, ?_, ?_, ?_, ht, fun file hm => ⟨hat file hm, ?_⟩⟩
  · rw [hreport]
    exact groupedByFile_flatMap (fun _ _ => Scan.file_of_mem_usage)
      (Scan.pairwise_line_usage sets.toList) hlabels horder
  · rw [hreport]
    exact groupedByFile_flatMap (fun _ _ => Scan.file_of_mem_requires)
      (Scan.pairwise_line_requires sets.toList) hlabels horder
  · rw [hreport]
    exact groupedByFile_flatMap (fun _ _ => Scan.file_of_mem_missing)
      (Scan.pairwise_line_missing sets) hlabels horder
  · intro hne new
    have hs' := Scan.readManifest_withContent hs (FileTree.writable_of_file (hat file hm)) hne new
    have hf' := findSources_withContent hw hf ht hm new
    obtain ⟨report', hscan, hr'⟩ := scan_isOk config hs' hf'
    exact ⟨report', hscan, Scan.report_agreesBeside hr hr'⟩

theorem scan_by_file_roi :
    let manifest := Text.Utf8.encode "\x7b\"dependencies\":\x7b\"roi\":\"1\"\x7d\x7d".toList
    let source := Text.Utf8.encode "const roi = require('roi')".toList
    let disk : Disk :=
      ⟨.directory [("package.json", .file manifest), ("a.js", .file source),
        ("lib", .directory [("b.js", .file source)])], []⟩
    disk.tree.wellFormed = true ∧ ∃ report report', scan disk {} = .ok report ∧
      report.usage.map (·.file) = ["a.js", "lib/b.js"] ∧
      disk.resolve .read "./package.json" ≠ .ok (.found ["a.js"]) ∧
      scan (disk.withContent ["a.js"] []) {} = .ok report' ∧
      report'.AgreesBeside "a.js" report := by
  intro manifest source disk
  have hw : disk.tree.wellFormed = true := by decide
  have hs : Manifest.search (linesOfBytes manifest) false =
      .ok (.all [⟨"roi", "1", .production⟩] []) := ok_of_toOption (by decide +kernel)
  have hscan : (scan disk {}).toOption.map (fun r => r.usage.map (·.file)) =
      some ["a.js", "lib/b.js"] := by
    rw [scan_here _ rfl hs rfl]
    decide +kernel
  obtain ⟨report, hr, hu⟩ := Option.map_eq_some_iff.mp hscan
  obtain ⟨sets, files, top, -, hf, -, -, -, -, ht, hall⟩ := scan_by_file hw (ok_of_toOption hr)
  have hfiles : findSources disk "." defaultExcludedDirectories =
      .ok [⟨["a.js"], source⟩, ⟨["lib", "b.js"], source⟩] := by
    rw [findSources_here]
    decide +kernel
  obtain rfl := Except.ok.inj (hfiles.symm.trans hf)
  have hplace : Path.steps "." = [.here] := by decide
  have hpath : Path.steps "./package.json" = [.here, .enter "package.json"] := by decide
  have htop : disk.resolve .read "." = .ok (.found []) := by
    simp [Disk.resolve, hplace, Disk.follow, disk, FileTree.at?, Path.isAbsolute]
  obtain rfl := Disk.Target.found.inj (Except.ok.inj (htop.symm.trans ht))
  have hne : disk.resolve .read "./package.json" ≠ .ok (.found ["a.js"]) := by
    simp [Disk.resolve, hpath, Disk.follow, disk, FileTree.at?, Path.isAbsolute]
  have hmanifest : Config.manifestPath {} = "./package.json" := by decide
  obtain ⟨report', hr', hagrees⟩ := (hall ⟨["a.js"], source⟩ (by simp)).2 (by rwa [hmanifest]) []
  exact ⟨hw, report, report', ok_of_toOption hr, hu, hne, hr', hagrees⟩

/-- A manifest may be a link to a source file. Then the content of that file decides what is
declared, and the records of other files with it. -/
theorem scan_manifest_link :
    let manifest := Text.Utf8.encode "\x7b\"dependencies\":\x7b\"roi\":\"1\"\x7d\x7d".toList
    let source := Text.Utf8.encode "const roi = require('roi')".toList
    let disk : Disk :=
      ⟨.directory [("a.js", .file manifest), ("package.json", .link "a.js"),
        ("b.js", .file source)], []⟩
    disk.tree.wellFormed = true ∧
      findSources disk "." defaultExcludedDirectories =
        .ok [⟨["a.js"], manifest⟩, ⟨["b.js"], source⟩] ∧
      ∃ report report', scan disk {} = .ok report ∧
        scan (disk.withContent ["a.js"] (Text.Utf8.encode "\x7b\x7d".toList)) {} = .ok report' ∧
        report.usage.filter (·.file == "b.js") =
          [⟨"roi", "roi-require('roi')", "b.js", 1, 1⟩] ∧
        report'.usage.filter (·.file == "b.js") = [] := by
  intro manifest source disk
  let entries (content : Text.Utf8.Bytes) : FileTree.Entries :=
    [("a.js", .file content), ("package.json", .link "a.js"), ("b.js", .file source)]
  have hpath : Path.steps "./package.json" = [.here, .enter "package.json"] := by decide
  have htarget : Path.steps "a.js" = [.enter "a.js"] := by decide
  have hmanifest : Config.manifestPath {} = "./package.json" := by decide
  have heval {content : Text.Utf8.Bytes} {sets : DependencySets}
      (hs : Manifest.search (linesOfBytes content) false = .ok sets) :
      scan ⟨.directory (entries content), []⟩ {} = (Scan.report false sets (sortBy SourceFile.le
        (SourceFile.ofEntries defaultExcludedDirectories (entries content)))).mapError .report := by
    have hread : readLines ⟨.directory (entries content), []⟩ "./package.json" =
        .ok (linesOfBytes content) := by
      have hlink : (entries content).lookup "package.json" = some (.link "a.js") := rfl
      have hfile : (entries content).lookup "a.js" = some (.file content) := rfl
      simp [readLines, Disk.readFile, Disk.lookup, Disk.resolve, hpath, htarget, Disk.follow,
        Disk.linkBound, hlink, hfile, FileTree.at?, Path.isAbsolute, bind, Except.bind]
    refine scan_of_readManifest (entries content) ?_ rfl
    simp [Scan.readManifest, hmanifest, hread, hs, mapError_ok, bind, Except.bind]
  have hfiles : findSources disk "." defaultExcludedDirectories =
      .ok [⟨["a.js"], manifest⟩, ⟨["b.js"], source⟩] := by
    rw [findSources_here]
    decide +kernel
  have hwhole : (scan disk {}).toOption.map (fun r => r.usage.filter (·.file == "b.js")) =
      some [⟨"roi", "roi-require('roi')", "b.js", 1, 1⟩] := by
    have hs : Manifest.search (linesOfBytes manifest) false =
        .ok (.all [⟨"roi", "1", .production⟩] []) := ok_of_toOption (by decide +kernel)
    rw [heval hs]
    decide +kernel
  have hedited : (scan (disk.withContent ["a.js"] (Text.Utf8.encode "\x7b\x7d".toList))
      {}).toOption.map (fun r => r.usage.filter (·.file == "b.js")) = some [] := by
    have hs : Manifest.search (linesOfBytes (Text.Utf8.encode "\x7b\x7d".toList)) false =
        .ok (.all [] []) := ok_of_toOption (by decide +kernel)
    have hdisk : disk.withContent ["a.js"] (Text.Utf8.encode "\x7b\x7d".toList) =
        ⟨.directory (entries (Text.Utf8.encode "\x7b\x7d".toList)), []⟩ := rfl
    rw [hdisk, heval hs]
    decide +kernel
  obtain ⟨report, hr, hu⟩ := Option.map_eq_some_iff.mp hwhole
  obtain ⟨report', hr', hu'⟩ := Option.map_eq_some_iff.mp hedited
  exact ⟨by decide, hfiles, report, report', ok_of_toOption hr, ok_of_toOption hr', hu, hu'⟩

end ImportLedger
