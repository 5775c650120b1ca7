import ImportLedger.Proofs.Outcomes
import ImportLedger.Scan

/-! What a successful scan has done: it has read a manifest and the dependencies
that the manifest declares, has found source files, and has brought together
what the finders yield on them. -/

namespace ImportLedger

theorem scan_ok {disk : Disk} {config : Config} {report : Report}
    (h : scan disk config = .ok report) :
    ∃ sets files, Scan.readManifest disk config = .ok sets ∧
      findSources disk config.root config.excludedDirectories = .ok files ∧
      Scan.report config.includeDev sets files = .ok report := by
  obtain ⟨sets, hs, h⟩ := ok_of_bind h
  obtain ⟨files, hf, h⟩ := ok_of_bind h
  exact ⟨sets, files, hs, ok_of_mapError hf, ok_of_mapError h⟩

theorem Report.assemble_ok {usage : List UsageRecord} {sets : DependencySets}
    {requires : List RequireRecord} {missing : List MissingRecord} {report : Report}
    (h : assemble usage sets requires missing = .ok report) :
    report = {
      dependencies := sets, usage, requires, missing
      unused := {
        production := .ofUsage usage sets.productionList
        dev := sets.devList?.map (.ofUsage usage) } } := by
  obtain ⟨_, _, h⟩ := ok_of_bind h
  obtain ⟨_, _, h⟩ := ok_of_bind h
  exact (Except.ok.inj h).symm

theorem Unused.dependencies_among (bound : List String) (dependencies : List Dependency) :
    (among bound dependencies).dependencies =
      dependencies.filter fun d => !bound.contains d.name := by
  rw [among]
  cases dependencies.filter fun d => !bound.contains d.name with
  | nil => rfl
  | cons d rest => rfl

theorem Manifest.declared_eq (kind : DependencyKind) (members : Json.Members) :
    declared kind members =
      if members.any fun m => m.1.toList.all Text.isBlank then .error (.blankName kind)
      else .ok (members.map fun m => ⟨m.1, versionText m.2, kind⟩) := by
  unfold declared
  induction members with
  | nil => rfl
  | cons m members ih =>
    rw [List.mapM_cons, ih, List.any_cons]
    obtain ⟨name, version⟩ := m
    cases hblank : name.toList.all Text.isBlank <;>
      cases hrest : members.any fun m => m.1.toList.all Text.isBlank <;>
        simp [hblank, bind, Except.bind, pure, Except.pure]

theorem Manifest.map_name_of_declared {kind : DependencyKind} {members : Json.Members}
    {list : List Dependency} (h : declared kind members = .ok list) :
    list.map (·.name) = members.map (·.1) := by
  rw [declared_eq] at h
  split at h
  · cases h
  · cases h
    rw [List.map_map]
    rfl

/-- A scan compares the sources with both fields of the manifest. -/
theorem Scan.readManifest_ok {disk : Disk} {config : Config} {sets : DependencySets}
    (h : readManifest disk config = .ok sets) :
    ∃ lines manifest production dev,
      readLines disk config.manifestPath = .ok lines ∧
      Manifest.ofText (Line.join lines) = .ok manifest ∧
      sets = .all production dev ∧
      production.map (·.name) = (manifest.dependencies.getD []).map (·.1) ∧
      dev.map (·.name) = (manifest.devDependencies.getD []).map (·.1) := by
  obtain ⟨lines, hl, h⟩ := ok_of_bind h
  have hs := ok_of_mapError h
  cases hm : Manifest.ofText (Line.join lines) with
  | error fault => simp [Manifest.search, hm] at hs
  | ok manifest =>
    rw [Manifest.search, hm] at hs
    obtain ⟨production, hp, hs⟩ := ok_of_bind hs
    obtain ⟨dev, hd, hs⟩ := ok_of_bind hs
    exact ⟨lines, manifest, production, dev, ok_of_mapError hl, hm,
      (Except.ok.inj hs).symm, Manifest.map_name_of_declared hp,
      Manifest.map_name_of_declared hd⟩

end ImportLedger
