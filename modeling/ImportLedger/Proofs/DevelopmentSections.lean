import ImportLedger.Proofs.Assembly
import ImportLedger.Proofs.RunSteps

/-! Reports with the development dependencies. They say all that the report without them says, so
that findings remain findings. -/

namespace ImportLedger

/-- How a report with the development dependencies compares with the one without. -/
structure Report.AddsDevelopment (full plain : Report) : Prop where
  usage : full.usage = plain.usage
  requires : full.requires = plain.requires
  missing : full.missing = plain.missing
  production : full.dependencies.productionList = plain.dependencies.productionList
  unused_production : full.unused.production = plain.unused.production
  plain_dev : plain.dependencies.devList? = none ∧ plain.unused.dev = none
  full_dev : ∃ dev, full.dependencies.devList? = some dev ∧
    full.unused.dev = some (.ofUsage full.usage dev)
  findings : plain.hasFindings = true → full.hasFindings = true

theorem Scan.report_addsDevelopment {production dev : List Dependency} {files : List SourceFile}
    {plain full : Report} (hp : Scan.report false (.all production dev) files = .ok plain)
    (hf : Scan.report true (.all production dev) files = .ok full) :
    full.AddsDevelopment plain := by
  rw [Report.assemble_ok hp, Report.assemble_ok hf]
  refine {
    usage := rfl
    requires := rfl
    missing := rfl
    production := rfl
    unused_production := rfl
    plain_dev := ⟨rfl, rfl⟩
    full_dev := ⟨dev, rfl, rfl⟩
    findings := fun h => ?_ }
  -- What the development dependencies add can only spoil that nothing is unused.
  simp only [Report.hasFindings, UnusedDependencies.isEmpty, Bool.or_eq_true, Bool.not_eq_true',
    Bool.and_eq_false_iff] at h ⊢
  rcases h with (hunused | hdev) | hmissing
  · exact .inl (.inl hunused)
  · cases hdev
  · exact .inr hmissing

theorem scan_includeDev (disk : Disk) (config : Config) :
    (∃ error, scan disk { config with includeDev := false } = .error error ∧
      scan disk { config with includeDev := true } = .error error) ∨
    ∃ plain full, scan disk { config with includeDev := false } = .ok plain ∧
      scan disk { config with includeDev := true } = .ok full ∧ full.AddsDevelopment plain := by
  have hread (includeDev : Bool) :
      Scan.readManifest disk { config with includeDev } = Scan.readManifest disk config := rfl
  cases hs : Scan.readManifest disk config with
  | error error =>
    have herror (includeDev : Bool) : scan disk { config with includeDev } = .error error := by
      rw [scan, hread, hs]
      rfl
    exact .inl ⟨error, herror false, herror true⟩
  | ok sets =>
    cases hf : findSources disk config.root config.excludedDirectories with
    | error error =>
      have herror (includeDev : Bool) :
          scan disk { config with includeDev } = .error (.read error) := by
        rw [scan, hread, hs, hf]
        rfl
      exact .inl ⟨_, herror false, herror true⟩
    | ok files =>
      obtain ⟨_, _, production, dev, -, -, rfl, -, -⟩ := Scan.readManifest_ok hs
      obtain ⟨plain, hplain, hp⟩ := scan_isOk { config with includeDev := false } hs hf
      obtain ⟨full, hfull, hr⟩ := scan_isOk { config with includeDev := true } hs hf
      exact .inr ⟨plain, full, hplain, hfull, Scan.report_addsDevelopment hp hr⟩

/-- The same for a configuration that may ask for the development dependencies already. -/
theorem scan_with_includeDev (disk : Disk) (config : Config) :
    (∃ error, scan disk config = .error error ∧
      scan disk { config with includeDev := true } = .error error) ∨
    ∃ plain full, scan disk config = .ok plain ∧
      scan disk { config with includeDev := true } = .ok full ∧
      (plain.hasFindings = true → full.hasFindings = true) := by
  by_cases hdev : config.includeDev = true
  · have hsame : { config with includeDev := true } = config := by rw [← hdev]
    rw [hsame]
    cases hs : scan disk config with
    | error error => exact .inl ⟨error, rfl, rfl⟩
    | ok r => exact .inr ⟨r, r, rfl, rfl, id⟩
  · have hsame : { config with includeDev := false } = config := by
      rw [← Bool.eq_false_iff.mpr hdev]
    have hh := scan_includeDev disk config
    rw [hsame] at hh
    rcases hh with herror | ⟨plain, full, hp, hf, hadds⟩
    · exact .inl herror
    · exact .inr ⟨plain, full, hp, hf, hadds.findings⟩

namespace CommandLine.Options

theorem merge_dev (options : Options) (config : Config) :
    { options with dev := true }.merge config =
      { options.merge config with includeDev := true } := by
  simp [merge]

/-- With the development dependencies no run goes well that fails without them. -/
theorem exit_of_dev {options : Options} {disk : Disk} {onTerminal : Bool}
    (h : ({ options with dev := true }.run disk onTerminal).exit = 0) :
    (options.run disk onTerminal).exit = 0 := by
  obtain ⟨config, r, hc, hs, hw, hfind⟩ := exit_eq_zero_iff.mp h
  rw [merge_dev] at hs hw
  rcases scan_with_includeDev disk (options.merge config) with ⟨_, -, he⟩ |
    ⟨plain, full, hp, hf, hadds⟩
  · rw [he] at hs
    cases hs
  · obtain rfl := Except.ok.inj (hf.symm.trans hs)
    exact exit_eq_zero_iff.mpr
      ⟨config, plain, hc, hp, hw, fun hci hplain => hfind hci (hadds hplain)⟩

end CommandLine.Options

/-- Scanning with the development dependencies. The scan succeeds as before or fails for the same
reason, the report says all that it said, and whoever adds them on the command line turns no run
that fails into one that goes well. -/
theorem scan_adds_development (disk : Disk) (config : Config) :
    ((∃ error, scan disk { config with includeDev := false } = .error error ∧
        scan disk { config with includeDev := true } = .error error) ∨
      ∃ plain full, scan disk { config with includeDev := false } = .ok plain ∧
        scan disk { config with includeDev := true } = .ok full ∧ full.AddsDevelopment plain) ∧
    ∀ (arguments arguments' : List String) (options : CommandLine.Options) (onTerminal : Bool),
      CommandLine.Options.ofArguments arguments = .ok options →
      CommandLine.Options.ofArguments arguments' = .ok { options with dev := true } →
      (CommandLine.run arguments disk onTerminal).exit ≠ 0 →
      (CommandLine.run arguments' disk onTerminal).exit ≠ 0 := by
  refine ⟨scan_includeDev disk config, ?_⟩
  intro arguments arguments' options onTerminal ho ho' hfails
  rw [CommandLine.run_of_ofArguments ho] at hfails
  rw [CommandLine.run_of_ofArguments ho']
  exact fun hz => hfails (CommandLine.Options.exit_of_dev hz)

theorem scan_adds_development_tape :
    ∃ plain full, scan smallProject {} = .ok plain ∧
      scan smallProject { includeDev := true } = .ok full ∧
      full.AddsDevelopment plain ∧ plain.missing = [⟨"ws", "index.js", 2⟩] ∧
      full.unused.dev = some (.unbound [⟨"tape", "4", .development⟩]) ∧
      (CommandLine.run ["--ci"] smallProject false).exit ≠ 0 ∧
      (CommandLine.run ["--ci", "--dev"] smallProject false).exit ≠ 0 := by
  have hplain : scan smallProject {} = .ok (smallReport false) := scan_smallProject rfl rfl
  have hfull : scan smallProject { includeDev := true } = .ok (smallReport true) :=
    scan_smallProject rfl rfl
  obtain ⟨hscans, hexit⟩ := scan_adds_development smallProject {}
  have hadds : (smallReport true).AddsDevelopment (smallReport false) := by
    rcases hscans with ⟨_, -, he⟩ | ⟨plain, full, hp, hf, hadds⟩
    · cases hfull.symm.trans he
    · obtain rfl := Except.ok.inj (hplain.symm.trans hp)
      obtain rfl := Except.ok.inj (hfull.symm.trans hf)
      exact hadds
  have ho : CommandLine.Options.ofArguments ["--ci"] = .ok { ci := true } :=
    ok_of_toOption (by decide +kernel)
  have ho' : CommandLine.Options.ofArguments ["--ci", "--dev"] =
      .ok { ci := true, dev := true } := ok_of_toOption (by decide +kernel)
  have hends : CommandLine.Options.Ends { ci := true } smallProject false _ :=
    .printed (CommandLine.Options.settings_here smallEntries rfl rfl rfl) hplain rfl
  have hfails : (CommandLine.run ["--ci"] smallProject false).exit ≠ 0 := by
    rw [CommandLine.run_of_ofArguments ho, hends.run_eq]
    decide
  exact ⟨_, _, hplain, hfull, hadds, rfl, rfl, hfails, hexit _ _ _ false ho ho' hfails⟩

end ImportLedger
