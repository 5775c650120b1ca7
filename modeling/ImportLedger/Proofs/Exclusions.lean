import ImportLedger.CommandLine.Run
import ImportLedger.Proofs.Assembly
import ImportLedger.Proofs.FileOrder
import Mathlib.Data.List.Flatten

/-! Scans that pass over more directories. They see fewer source files, so they report fewer
usages, `require` calls and missing packages, and no fewer unused dependencies. -/

namespace ImportLedger

namespace SourceFile

variable {few many : List String}

mutual

theorem ofEntry_sublist (h : few ⊆ many) (name : String) (node : FileTree) :
    (ofEntry many name node).Sublist (ofEntry few name node) := by
  cases node with
  | file content => rw [ofEntry, ofEntry]
  | link target => rw [ofEntry, ofEntry]
  | directory entries =>
    rw [ofEntry, ofEntry]
    by_cases hm : many.contains name = true
    · rw [if_pos hm]
      exact List.nil_sublist _
    · have hf : ¬few.contains name = true := by
        simp only [List.contains_iff_mem] at hm ⊢
        exact fun hn => hm (h hn)
      rw [if_neg hm, if_neg hf]
      exact (ofEntries_sublist h entries).map _

theorem ofEntries_sublist (h : few ⊆ many) (entries : List (String × FileTree)) :
    (ofEntries many entries).Sublist (ofEntries few entries) := by
  match entries with
  | [] => rw [ofEntries, ofEntries]
  | (name, node) :: rest =>
    rw [ofEntries, ofEntries]
    exact (ofEntry_sublist h name node).append (ofEntries_sublist h rest)

end

theorem ofStart_sublist (h : few ⊆ many) (root : String) (start : FileTree) :
    (ofStart root many start).Sublist (ofStart root few start) := by
  cases start with
  | file content => exact .refl _
  | link target => exact .refl _
  | directory entries => exact sortBy_sublist le_total le_trans (ofEntries_sublist h entries)

end SourceFile

theorem findSources_sublist {disk : Disk} {root : String} {few many : List String}
    {files : List SourceFile} (hsub : few ⊆ many) (h : findSources disk root few = .ok files) :
    ∃ fewer, findSources disk root many = .ok fewer ∧ fewer.Sublist files := by
  obtain ⟨start, hs, rfl⟩ := findSources_ok_iff.mp h
  exact ⟨_, findSources_ok_iff.mpr ⟨start, hs, rfl⟩, SourceFile.ofStart_sublist hsub root start⟩

/-- How the report on some of the files compares with the report on all of them. -/
structure Report.Narrows (narrow wide : Report) : Prop where
  dependencies : narrow.dependencies = wide.dependencies
  usage : narrow.usage.Sublist wide.usage
  requires : narrow.requires.Sublist wide.requires
  missing : narrow.missing.Sublist wide.missing
  unused_production :
    wide.unused.production.dependencies.Sublist narrow.unused.production.dependencies
  unused_dev : Option.Rel (fun w n => w.dependencies.Sublist n.dependencies)
    wide.unused.dev narrow.unused.dev

theorem Unused.sublist_ofUsage {fewer usage : List UsageRecord} (h : fewer ⊆ usage)
    (dependencies : List Dependency) :
    (ofUsage usage dependencies).dependencies.Sublist (ofUsage fewer dependencies).dependencies := by
  rw [ofUsage, ofUsage, dependencies_among, dependencies_among]
  refine List.monotone_filter_right _ fun d hd => ?_
  have hnot : d.name ∉ usage.map (·.name) := by simpa using hd
  have hnot' : d.name ∉ fewer.map (·.name) := fun hm => hnot (List.map_subset _ h hm)
  simpa using hnot'

theorem Scan.report_narrows {includeDev : Bool} {sets : DependencySets}
    {files fewer : List SourceFile} {wide narrow : Report} (hsub : fewer.Sublist files)
    (hw : Scan.report includeDev sets files = .ok wide)
    (hn : Scan.report includeDev sets fewer = .ok narrow) : narrow.Narrows wide := by
  have husage := hsub.flatMap (Scan.usage sets.toList)
  rw [Report.assemble_ok hw, Report.assemble_ok hn]
  refine {
    dependencies := rfl
    usage := husage
    requires := hsub.flatMap _
    missing := hsub.flatMap _
    unused_production := Unused.sublist_ofUsage husage.subset _
    unused_dev := ?_ }
  cases (if includeDev = true then sets else sets.productionOnly).devList? with
  | none => exact .none
  | some dev => exact .some (Unused.sublist_ofUsage husage.subset dev)

theorem CommandLine.Options.configuration_exclude (options : Options) (disk : Disk)
    (named : List String) :
    { options with excluded := options.excluded ++ named }.configuration disk =
      (options.configuration disk).map fun config =>
        { config with excludedDirectories := config.excludedDirectories ++ named } := by
  obtain ⟨path, configFile, dev, excluded, file, summary, format, color, ci⟩ := options
  cases configFile with
  | none =>
    simp only [configuration, root]
    cases Config.load disk (path.getD ".") with
    | error cause => rfl
    | ok base => simp [merge, bind, Except.bind, pure, Except.pure, Except.map]
  | some path =>
    simp only [configuration]
    cases Config.ofFile disk path with
    | error cause => rfl
    | ok base => simp [merge, root, bind, Except.bind, pure, Except.pure, Except.map]

/-- Excluding more directories. A scan that succeeds still does, the records of its report are
among those of before in the same order, and a dependency that was unused still is. To name
directories on the command line is to exclude them as well. -/
theorem scan_narrows {disk : Disk} {config : Config} {more : List String} {report : Report}
    (hsub : config.excludedDirectories ⊆ more) (h : scan disk config = .ok report) :
    (∃ narrow, scan disk { config with excludedDirectories := more } = .ok narrow ∧
      narrow.Narrows report) ∧
    ∀ (options : CommandLine.Options) (named : List String),
      options.configuration disk = .ok config →
      ∃ config' narrow,
        { options with excluded := options.excluded ++ named }.configuration disk = .ok config' ∧
        scan disk config' = .ok narrow ∧ narrow.Narrows report := by
  obtain ⟨sets, files, hs, hf, hr⟩ := scan_ok h
  have hnarrow : ∀ more, config.excludedDirectories ⊆ more →
      ∃ narrow, scan disk { config with excludedDirectories := more } = .ok narrow ∧
        narrow.Narrows report := by
    intro more hsub
    obtain ⟨fewer, hf', hfewer⟩ := findSources_sublist hsub hf
    obtain ⟨narrow, hscan, hn⟩ :=
      scan_isOk { config with excludedDirectories := more } hs hf'
    exact ⟨narrow, hscan, Scan.report_narrows hfewer hr hn⟩
  refine ⟨hnarrow more hsub, ?_⟩
  intro options named ho
  obtain ⟨narrow, hscan, hn⟩ :=
    hnarrow (config.excludedDirectories ++ named) (List.subset_append_left _ _)
  refine ⟨_, narrow, ?_, hscan, hn⟩
  rw [CommandLine.Options.configuration_exclude, ho]
  rfl

theorem scan_narrows_vendor :
    let manifest := Text.Utf8.encode
      "\x7b\"dependencies\":\x7b\"roi\":\"1\",\"ink\":\"2\"\x7d\x7d".toList
    let vendored := Text.Utf8.encode "import ink from 'ink'\nrequire('ws')".toList
    let disk : Disk :=
      ⟨.directory [("package.json", .file manifest),
        ("index.js", .file (Text.Utf8.encode "var r=require('roi')".toList)),
        ("vendor", .directory [("tap.js", .file vendored)])], []⟩
    let all : Config := { excludedDirectories := [] }
    all.excludedDirectories ⊆ ["vendor"] ∧ ∃ report narrow, scan disk all = .ok report ∧
      scan disk { all with excludedDirectories := ["vendor"] } = .ok narrow ∧
      narrow.Narrows report ∧
      report.missing = [⟨"ws", "vendor/tap.js", 2⟩] ∧ report.unused.production.names = [] ∧
      narrow.missing = [] ∧ narrow.unused.production.names = ["ink"] := by
  intro manifest vendored disk all
  let production : List Dependency := [⟨"roi", "1", .production⟩, ⟨"ink", "2", .production⟩]
  have hs : Manifest.search (linesOfBytes manifest) false = .ok (.all production []) :=
    ok_of_toOption (by decide +kernel)
  have heval (config : Config) (hroot : config.root = ".") := scan_here [
    ("package.json", .file manifest),
    ("index.js", .file (Text.Utf8.encode "var r=require('roi')".toList)),
    ("vendor", .directory [("tap.js", .file vendored)])] rfl hs hroot
  have hwide : (scan disk all).toOption.map
      (fun r => (r.missing, r.unused.production.names)) =
      some ([⟨"ws", "vendor/tap.js", 2⟩], []) := by
    rw [heval all rfl]
    decide +kernel
  have hnarrow : (scan disk { all with excludedDirectories := ["vendor"] }).toOption.map
      (fun r => (r.missing, r.unused.production.names)) = some ([], ["ink"]) := by
    rw [heval { all with excludedDirectories := ["vendor"] } rfl]
    decide +kernel
  obtain ⟨report, hr, he⟩ := Option.map_eq_some_iff.mp hwide
  have hsub : all.excludedDirectories ⊆ ["vendor"] := List.nil_subset _
  obtain ⟨narrow, hn, hh⟩ := (scan_narrows hsub (ok_of_toOption hr)).1
  rw [hn] at hnarrow
  have he' := Option.some.inj hnarrow
  exact ⟨hsub, report, narrow, ok_of_toOption hr, hn, hh, congrArg Prod.fst he,
    congrArg Prod.snd he, congrArg Prod.fst he', congrArg Prod.snd he'⟩

end ImportLedger
