import ImportLedger.Proofs.Assembly
import ImportLedger.Proofs.SourceLabels

/-! What a scan says of a package. Declared packages are unused exactly when no
statement of a source file binds them, and packages are missing as often as they
are referred to when they are neither declared nor built in. -/

namespace ImportLedger

/-- Whether a statement of the files binds a name to what the package exports. -/
def BindsPackage (files : List SourceFile) (package : String) : Prop :=
  ∃ file ∈ files, ∃ line ∈ linesOfBytes file.content, ∃ s ∈ bindingStatements line.text,
    packageName s.specifier = some package

/-- How many references of a line belong to the package. -/
def Line.referencesTo (line : Line) (package : String) : Nat :=
  (moduleReferences line.text).countP fun r => packageName r.specifier == some package

/-- An element that stems from one member of a list alone occurs as often as
that member yields it. -/
theorem count_flatMap_of_key {α β κ : Type} [BEq β] [LawfulBEq β] {l : List α} {f : α → List β}
    {key : α → κ} {a : α} {x : β} (hd : (l.map key).Nodup) (ha : a ∈ l)
    (hx : ∀ b ∈ l, x ∈ f b → key b = key a) : (l.flatMap f).count x = (f a).count x := by
  induction l with
  | nil => simp at ha
  | cons b rest ih =>
    have hd' := List.nodup_cons.mp (List.map_cons ▸ hd)
    rw [List.flatMap_cons, List.count_append]
    rcases List.mem_cons.mp ha with rfl | ha
    · have hrest : (rest.flatMap f).count x = 0 := by
        refine List.count_eq_zero.mpr fun hm => ?_
        obtain ⟨c, hc, hm⟩ := List.mem_flatMap.mp hm
        have hk := hx c (List.mem_cons_of_mem _ hc) hm
        exact hd'.1 (hk ▸ List.mem_map_of_mem hc)
      rw [hrest, Nat.add_zero]
    · have hb : (f b).count x = 0 := by
        refine List.count_eq_zero.mpr fun hm => ?_
        have hk := hx b List.mem_cons_self hm
        exact hd'.1 (hk ▸ List.mem_map_of_mem ha)
      rw [hb, Nat.zero_add, ih hd'.2 ha fun c hc => hx c (List.mem_cons_of_mem _ hc)]

theorem nodup_number_linesOfBytes (content : Text.Utf8.Bytes) :
    ((linesOfBytes content).map (·.number)).Nodup := by
  rw [linesOfBytes, Line.ofText]
  split
  · simp
  · rw [Line.map_number_numbered]
    exact List.nodup_range'

theorem count_onLine (file : String) (sets : DependencySets) (line : Line) (package : String) :
    (MissingRecord.onLine file sets line).count ⟨package, file, line.number⟩ =
      if isBuiltin package || sets.contains package then 0 else line.referencesTo package := by
  rw [List.count, MissingRecord.onLine, List.countP_filterMap]
  have he : ∀ r : ModuleReference,
      (((missingPackage? sets r.specifier).map fun name =>
        (⟨name, file, line.number⟩ : MissingRecord)).map (· == ⟨package, file, line.number⟩)).getD
          false =
      decide (missingPackage? sets r.specifier = some package) := by
    intro r
    cases missingPackage? sets r.specifier with
    | none => rfl
    | some name => exact Bool.eq_iff_iff.mpr (by simp)
  rw [funext he]
  split
  · rename_i hdeclared
    refine List.countP_eq_zero.mpr fun r _ hr => ?_
    obtain ⟨_, hb, hc⟩ := missingPackage?_eq_some.mp (of_decide_eq_true hr)
    simp [hb, hc] at hdeclared
  · rename_i hdeclared
    obtain ⟨hb, hc⟩ : isBuiltin package = false ∧ sets.contains package = false := by
      simpa using hdeclared
    refine List.countP_congr fun r _ => ?_
    simp [missingPackage?_eq_some, hb, hc]

theorem count_findMissing {lines : List Line} (hd : (lines.map (·.number)).Nodup) (file : String)
    (sets : DependencySets) {line : Line} (hl : line ∈ lines) (package : String) :
    (findMissing lines file sets).count ⟨package, file, line.number⟩ =
      if isBuiltin package || sets.contains package then 0 else line.referencesTo package := by
  rw [← count_onLine file, findMissing]
  refine count_flatMap_of_key hd hl fun other ho hm => ?_
  have hm' : (⟨package, file, line.number⟩ : MissingRecord) ∈ findMissing [other] file sets := by
    simpa [findMissing] using hm
  obtain ⟨l, hl, _, _, _, _, _, he⟩ := mem_findMissing.mp hm'
  obtain rfl := List.mem_singleton.mp hl
  exact (congrArg MissingRecord.line he).symm

theorem Unused.mem_dependencies_among {bound : List String} {dependencies : List Dependency}
    {d : Dependency} :
    d ∈ (among bound dependencies).dependencies ↔ d ∈ dependencies ∧ d.name ∉ bound := by
  rw [dependencies_among, List.mem_filter]
  simp

theorem Scan.mem_map_name_usage {declared : List Dependency} {files : List SourceFile}
    {name : String} :
    name ∈ (files.flatMap (usage declared)).map (·.name) ↔
      name ∈ declared.map (·.name) ∧ BindsPackage files name := by
  have hu : ∀ file : SourceFile, (usage declared file).map (·.name) =
      (findDeclarations (linesOfBytes file.content) file.label declared).map (·.name) :=
    fun file => map_name_usageRecords _ _ _
  rw [List.map_flatMap, funext hu]
  constructor
  · intro h
    obtain ⟨file, hf, h⟩ := List.mem_flatMap.mp h
    obtain ⟨d, hd, rfl⟩ := List.mem_map.mp h
    obtain ⟨line, hl, s, hs, hp, hn, _⟩ := mem_findDeclarations.mp hd
    exact ⟨hn, file, hf, line, hl, s, hs, hp⟩
  · rintro ⟨hn, file, hf, line, hl, s, hs, hp⟩
    let d : Declaration :=
      { name, binding := s.binding, reference := s.reference, kind := s.kind, file := file.label,
        line := line.number, start := s.start, stop := s.stop }
    have hd : d ∈ findDeclarations (linesOfBytes file.content) file.label declared :=
      mem_findDeclarations.mpr ⟨line, hl, s, hs, hp, hn, rfl⟩
    exact List.mem_flatMap.mpr ⟨file, hf, List.mem_map_of_mem hd⟩

theorem Scan.name_of_mem_requires {declared : List Dependency} {files : List SourceFile}
    {r : RequireRecord} (h : r ∈ files.flatMap (requires declared)) :
    r.name ∈ declared.map (·.name) := by
  obtain ⟨file, _, h⟩ := List.mem_flatMap.mp h
  obtain ⟨_, _, _, _, _, hn, _⟩ := mem_findRequires.mp h
  exact hn

theorem Scan.mem_unused_iff {declared dependencies : List Dependency} (files : List SourceFile)
    (hsub : dependencies ⊆ declared) (d : Dependency) :
    d ∈ (Unused.ofUsage (files.flatMap (usage declared)) dependencies).dependencies ↔
      d ∈ dependencies ∧ ¬ BindsPackage files d.name := by
  rw [Unused.ofUsage, Unused.mem_dependencies_among, mem_map_name_usage]
  constructor
  · rintro ⟨hd, hn⟩
    exact ⟨hd, fun hb => hn ⟨List.mem_map_of_mem (hsub hd), hb⟩⟩
  · rintro ⟨hd, hb⟩
    exact ⟨hd, fun hn => hb hn.2⟩

theorem Scan.missing_of_mem {sets : DependencySets} {files : List SourceFile} {m : MissingRecord}
    (h : m ∈ files.flatMap (missing sets)) :
    sets.contains m.name = false ∧
      ∃ file ∈ files, m.file = file.label ∧
        ∃ line ∈ linesOfBytes file.content, m.line = line.number := by
  obtain ⟨file, hf, h⟩ := List.mem_flatMap.mp h
  obtain ⟨line, hl, _, _, _, _, hc, he⟩ := mem_findMissing.mp h
  exact ⟨hc, file, hf, congrArg MissingRecord.file he, line, hl, congrArg MissingRecord.line he⟩

theorem Scan.count_missing {sets : DependencySets} {files : List SourceFile}
    (hd : (files.map SourceFile.label).Nodup) {file : SourceFile} (hf : file ∈ files) {line : Line}
    (hl : line ∈ linesOfBytes file.content) (package : String) :
    (files.flatMap (missing sets)).count ⟨package, file.label, line.number⟩ =
      if isBuiltin package || sets.contains package then 0 else line.referencesTo package := by
  rw [← count_findMissing (nodup_number_linesOfBytes file.content) file.label sets hl]
  refine count_flatMap_of_key hd hf fun other _ hm => ?_
  obtain ⟨_, _, _, _, _, _, _, he⟩ := mem_findMissing.mp hm
  exact (congrArg MissingRecord.file he).symm

/-- What a report says of packages, given the dependencies of the manifest and
the source files of the scan. -/
structure Report.Classifies (report : Report) (includeDev : Bool) (production dev : List Dependency)
    (files : List SourceFile) : Prop where
  unused_production : ∀ d, d ∈ report.unused.production.dependencies ↔
    d ∈ production ∧ ¬ BindsPackage files d.name
  unused_dev : if includeDev = true then
      ∃ u, report.unused.dev = some u ∧
        ∀ d, d ∈ u.dependencies ↔ d ∈ dev ∧ ¬ BindsPackage files d.name
    else report.unused.dev = none
  /-- Labels that differ keep the records of different files apart. -/
  count_missing : (files.map SourceFile.label).Nodup → ∀ package, ∀ file ∈ files,
    ∀ line ∈ linesOfBytes file.content,
      report.missing.count ⟨package, file.label, line.number⟩ =
        if isBuiltin package || (DependencySets.all production dev).contains package then 0
        else line.referencesTo package
  missing_placed : ∀ m ∈ report.missing, ∃ file ∈ files, m.file = file.label ∧
    ∃ line ∈ linesOfBytes file.content, m.line = line.number
  usage_declared : ∀ u ∈ report.usage, u.name ∈ (production ++ dev).map (·.name)
  requires_declared : ∀ r ∈ report.requires, r.name ∈ (production ++ dev).map (·.name)
  missing_disjoint : ∀ m ∈ report.missing, m.name ∉ report.usage.map (·.name) ∧
    m.name ∉ report.requires.map (·.name) ∧ m.name ∉ report.unused.production.names ∧
    ∀ u ∈ report.unused.dev, m.name ∉ u.names

theorem Scan.report_classifies {includeDev : Bool} {production dev : List Dependency}
    {files : List SourceFile} {report : Report}
    (h : Scan.report includeDev (.all production dev) files = .ok report) :
    report.Classifies includeDev production dev files := by
  have hproduction : production ⊆ (DependencySets.all production dev).toList :=
    List.subset_append_left _ _
  have hdev : dev ⊆ (DependencySets.all production dev).toList := List.subset_append_right _ _
  have hsets : (if includeDev = true then DependencySets.all production dev
      else (DependencySets.all production dev).productionOnly).productionList = production := by
    cases includeDev <;> rfl
  rw [Report.assemble_ok h]
  have hunused := Scan.mem_unused_iff files hproduction
  have hunused' := Scan.mem_unused_iff files hdev
  refine {
    unused_production := by rw [hsets]; exact hunused
    unused_dev := ?_
    count_missing := fun hd package file hf line hl => Scan.count_missing hd hf hl package
    missing_placed := fun m hm => (Scan.missing_of_mem hm).2
    usage_declared := fun u hu => (Scan.mem_map_name_usage.mp (List.mem_map_of_mem hu)).1
    requires_declared := fun r hr => Scan.name_of_mem_requires hr
    missing_disjoint := fun m hm => ?_ }
  · cases includeDev with
    | false => rfl
    | true => exact ⟨_, rfl, hunused'⟩
  · have hc : m.name ∉ (DependencySets.all production dev).toList.map (·.name) := by
      intro hn
      have := DependencySets.contains_iff.mpr hn
      simp [(Scan.missing_of_mem hm).1] at this
    have hnames : ∀ {l : List Dependency} {usage : List UsageRecord},
        l ⊆ (DependencySets.all production dev).toList → m.name ∉ (Unused.ofUsage usage l).names := by
      intro l usage hl hn
      obtain ⟨d, hd, he⟩ := List.mem_map.mp hn
      exact hc (he ▸ List.mem_map_of_mem (hl (Unused.mem_dependencies_among.mp hd).1))
    refine ⟨fun hn => hc (Scan.mem_map_name_usage.mp hn).1, fun hn => ?_, ?_, ?_⟩
    · obtain ⟨r, hr, he⟩ := List.mem_map.mp hn
      exact hc (he ▸ Scan.name_of_mem_requires hr)
    · rw [hsets]
      exact hnames hproduction
    · cases includeDev with
      | false => intro u hu; cases hu
      | true =>
        intro u hu
        obtain rfl : Unused.ofUsage _ dev = u := Option.some.inj hu
        exact hnames hdev

/-- The classification of a scan: its report sorts the declared names, those of
both fields of the manifest, and all names that the source files refer to. -/
theorem scan_classifies {disk : Disk} {config : Config} {report : Report}
    (h : scan disk config = .ok report) :
    ∃ lines manifest production dev files,
      readLines disk config.manifestPath = .ok lines ∧
      Manifest.ofText (Line.join lines) = .ok manifest ∧
      production.map (·.name) = (manifest.dependencies.getD []).map (·.1) ∧
      dev.map (·.name) = (manifest.devDependencies.getD []).map (·.1) ∧
      findSources disk config.root config.excludedDirectories = .ok files ∧
      (disk.tree.wellFormed = true → (files.map SourceFile.label).Nodup) ∧
      report.Classifies config.includeDev production dev files := by
  obtain ⟨sets, files, hs, hf, hr⟩ := scan_ok h
  obtain ⟨lines, manifest, production, dev, hl, hm, rfl, hp, hd⟩ := Scan.readManifest_ok hs
  exact ⟨lines, manifest, production, dev, files, hl, hm, hp, hd, hf,
    fun hw => nodup_label_of_findSources hw hf, Scan.report_classifies hr⟩

theorem scan_classifies_roi_ink :
    ∃ report, scan smallProject {} = .ok report ∧ report.unused.production.names = ["ink"] ∧
      report.missing = [⟨"ws", "index.js", 2⟩] ∧
      ∃ lines m production dev files, readLines smallProject "./package.json" = .ok lines ∧
        Manifest.ofText (Line.join lines) = .ok m ∧
        production.map (·.name) = (m.dependencies.getD []).map (·.1) ∧
        dev.map (·.name) = (m.devDependencies.getD []).map (·.1) ∧
        findSources smallProject "." defaultExcludedDirectories = .ok files ∧
        (smallProject.tree.wellFormed = true → (files.map SourceFile.label).Nodup) ∧
        report.Classifies false production dev files := by
  have h : scan smallProject {} = .ok (smallReport false) := scan_smallProject rfl rfl
  exact ⟨_, h, rfl, rfl, scan_classifies h⟩

end ImportLedger
