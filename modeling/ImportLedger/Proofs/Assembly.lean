import ImportLedger.Proofs.PackageNames
import ImportLedger.Proofs.Readings
import ImportLedger.Proofs.Records
import ImportLedger.Proofs.ScanSteps
import ImportLedger.Proofs.Search
import ImportLedger.Proofs.SourceRoot

/-! What the finders yield passes the checks of a report, so that a scan never fails once it has
its manifest and its source files. The scan of a project at the top of a disk comes down to the
report on its files, as for the small project at the end. -/

namespace ImportLedger

theorem Report.assemble_isOk {usage : List UsageRecord} {requires : List RequireRecord}
    (hu : ∀ u ∈ usage, u.check = .ok ()) (hr : ∀ r ∈ requires, r.check = .ok ())
    (sets : DependencySets) (missing : List MissingRecord) :
    ∃ report, assemble usage sets requires missing = .ok report := by
  rw [assemble, forM_ok_iff.mpr hu, forM_ok_iff.mpr hr]
  exact ⟨_, rfl⟩

theorem text_ne_empty_of_requireCalls {text : String} {call : RequireCall}
    (h : call ∈ requireCalls text) : call.text ≠ "" := by
  obtain ⟨o, ho, rfl⟩ := List.mem_map.mp h
  obtain ⟨p, c, r, left, -, -, hread, -, htext⟩ := Occurrence.exists_of_mem_findAll ho
  obtain ⟨opening, closing, -, hm, -, hs⟩ := ReferenceShape.read_sound hread
  have hne : o.text ≠ [] := by
    rw [htext, hs, show opening ++ (o.value ++ (closing ++ left)) =
      (opening ++ o.value ++ closing) ++ left by simp, Text.consumed_append]
    have := (Pattern.describes_someOf.mp hm).1
    simp [this]
  intro he
  exact hne (by simpa using congrArg String.toList he)

theorem number_pos_of_mem_linesOfBytes {content : Text.Utf8.Bytes} {line : Line}
    (h : line ∈ linesOfBytes content) : 0 < line.number := by
  rw [linesOfBytes, Line.ofText] at h
  split at h
  · cases h
  · have hn := List.mem_map_of_mem (f := (·.number)) h
    rw [Line.map_number_numbered] at hn
    exact (List.mem_range'_1.mp hn).1

namespace Scan

theorem check_of_mem_usage {declared : List Dependency} {file : SourceFile} {u : UsageRecord}
    (h : u ∈ usage declared file) : u.check = .ok () := by
  obtain ⟨d, hd, rfl⟩ := List.mem_map.mp h
  obtain ⟨line, hl, s, -, hp, -, he⟩ := mem_findDeclarations.mp hd
  have hname := packageName_ne_empty hp
  have hliteral : d.literal ≠ "" := by
    intro hempty
    have := congrArg String.toList hempty
    simp [Declaration.literal] at this
  have hline : d.line ≠ 0 := by
    have := number_pos_of_mem_linesOfBytes hl
    rw [he]
    exact Nat.ne_of_gt this
  simp [UsageRecord.check, hname, hliteral, hline]

theorem check_of_mem_requires {declared : List Dependency} {file : SourceFile}
    {r : RequireRecord} (h : r ∈ requires declared file) : r.check = .ok () := by
  obtain ⟨line, hl, call, hc, hp, -, he⟩ := mem_findRequires.mp h
  have hname := packageName_ne_empty hp
  have hstatement : r.statement ≠ "" := by
    rw [he]
    exact text_ne_empty_of_requireCalls hc
  have hline : r.line ≠ 0 := by
    rw [he]
    exact Nat.ne_of_gt (number_pos_of_mem_linesOfBytes hl)
  simp [RequireRecord.check, hname, hstatement, hline]

theorem report_isOk (includeDev : Bool) (sets : DependencySets) (files : List SourceFile) :
    ∃ r, report includeDev sets files = .ok r := by
  refine Report.assemble_isOk ?_ ?_ _ _
  · intro u hu
    obtain ⟨file, -, hu⟩ := List.mem_flatMap.mp hu
    exact check_of_mem_usage hu
  · intro r hr
    obtain ⟨file, -, hr⟩ := List.mem_flatMap.mp hr
    exact check_of_mem_requires hr

end Scan

theorem scan_isOk {disk : Disk} (config : Config) {sets : DependencySets}
    {files : List SourceFile} (hs : Scan.readManifest disk config = .ok sets)
    (hf : findSources disk config.root config.excludedDirectories = .ok files) :
    ∃ report, scan disk config = .ok report ∧
      Scan.report config.includeDev sets files = .ok report := by
  obtain ⟨report, hr⟩ := Scan.report_isOk config.includeDev sets files
  refine ⟨report, ?_, hr⟩
  rw [scan, hs, hf]
  change (Scan.report config.includeDev sets files).mapError ScanError.report = .ok report
  rw [hr]
  rfl

theorem findSources_here (entries : FileTree.Entries) (excluded : List String) :
    findSources ⟨.directory entries, []⟩ "." excluded =
      .ok (sortBy SourceFile.le (SourceFile.ofEntries excluded entries)) := by
  have hplace : Path.steps "." = [.here] := by decide
  have hlookup : Disk.lookup ⟨.directory entries, []⟩ .inspect "." = .ok (.directory entries) := by
    simp [Disk.lookup, Disk.resolve, hplace, Disk.follow, FileTree.at?, Path.isAbsolute, bind,
      Except.bind]
  have hsearched : Disk.searched ⟨.directory entries, []⟩ "." = .ok (.directory entries) := by
    rw [Disk.searched, hlookup]
  rw [findSources_eq, hsearched]
  rfl

/-- The scan of a project that is the whole disk. -/
theorem scan_of_readManifest (entries : FileTree.Entries) {config : Config} {sets : DependencySets}
    (hs : Scan.readManifest ⟨.directory entries, []⟩ config = .ok sets)
    (hroot : config.root = ".") :
    scan ⟨.directory entries, []⟩ config =
      (Scan.report config.includeDev sets
        (sortBy SourceFile.le (SourceFile.ofEntries config.excludedDirectories entries))).mapError
        .report := by
  rw [scan, hs, hroot, findSources_here]
  rfl

theorem scan_here (entries : FileTree.Entries) {manifest : Text.Utf8.Bytes} {sets : DependencySets}
    (hm : entries.lookup "package.json" = some (.file manifest))
    (hs : Manifest.search (linesOfBytes manifest) false = .ok sets) {config : Config}
    (hroot : config.root = ".") :
    scan ⟨.directory entries, []⟩ config =
      (Scan.report config.includeDev sets
        (sortBy SourceFile.le (SourceFile.ofEntries config.excludedDirectories entries))).mapError
        .report := by
  have hpath : Path.steps "./package.json" = [.here, .enter "package.json"] := by decide
  have hmanifest : config.manifestPath = "./package.json" := by
    rw [Config.manifestPath, hroot]
    decide
  have hread : readLines ⟨.directory entries, []⟩ config.manifestPath =
      .ok (linesOfBytes manifest) := by
    simp [readLines, Disk.readFile, Disk.lookup, Disk.resolve, hmanifest, hpath, Disk.follow, hm,
      FileTree.at?, Path.isAbsolute, bind, Except.bind]
  refine scan_of_readManifest entries ?_ hroot
  rw [Scan.readManifest, hread, mapError_ok]
  simp only [bind, Except.bind]
  rw [hs]
  rfl

section SmallProject

def smallManifest : Text.Utf8.Bytes := Text.Utf8.encode
  ("\x7b\"dependencies\":\x7b\"roi\":\"1\",\"ink\":\"2\"\x7d," ++
    "\"devDependencies\":\x7b\"tape\":\"4\"\x7d\x7d").toList

def smallSource : Text.Utf8.Bytes := Text.Utf8.encode
  "// é\nimport 'ws'; var \x7bget\x7d=require('roi')".toList

def smallEntries : FileTree.Entries :=
  [("package.json", .file smallManifest), ("index.js", .file smallSource)]

/-- A project that uses one of the two packages that it declares for production, and one that it
does not declare. -/
def smallProject : Disk := ⟨.directory smallEntries, []⟩

def smallReport (includeDev : Bool) : Report :=
  let production : List Dependency := [⟨"roi", "1", .production⟩, ⟨"ink", "2", .production⟩]
  let dev : List Dependency := [⟨"tape", "4", .development⟩]
  { dependencies := if includeDev then .all production dev else .production production
    usage := [⟨"roi", "\x7bget\x7d-require('roi')", "index.js", 2, 1⟩]
    requires := [⟨"roi", "require('roi')", "index.js", 2⟩]
    unused := {
      production := .unbound [⟨"ink", "2", .production⟩]
      dev := if includeDev then some (.unbound dev) else none }
    missing := [⟨"ws", "index.js", 2⟩] }

theorem scan_smallProject {config : Config} (hroot : config.root = ".")
    (hexcluded : config.excludedDirectories = defaultExcludedDirectories) :
    scan smallProject config = .ok (smallReport config.includeDev) := by
  have hs : Manifest.search (linesOfBytes smallManifest) false =
      .ok (.all [⟨"roi", "1", .production⟩, ⟨"ink", "2", .production⟩]
        [⟨"tape", "4", .development⟩]) := ok_of_toOption (by decide +kernel)
  rw [smallProject, scan_here smallEntries rfl hs hroot, hexcluded]
  cases config.includeDev with
  | false => exact ok_of_toOption (by decide +kernel)
  | true => exact ok_of_toOption (by decide +kernel)

end SmallProject

end ImportLedger
