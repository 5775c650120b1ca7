import ImportLedger.CommandLine.Run
import ImportLedger.Proofs.Assembly
import ImportLedger.Proofs.FileWrites

/-! A run stage by stage. The settings of the configuration file come first, then the scan, then the
report is printed and, if that is wanted, written to its file. -/

namespace ImportLedger

/-- The path of the report file. -/
def Disk.reportPath (disk : Disk) : String := Path.join disk.workingPath Report.fileName

theorem Disk.reportPath_of_top {disk : Disk} (h : disk.workingDirectory = []) :
    disk.reportPath = "/depscan.txt" := by
  rw [reportPath, workingPath, h]
  decide

/-- The configuration file of a project at the top. -/
theorem Disk.lookup_config_here (entries : FileTree.Entries)
    (h : ∀ target, entries.lookup Config.fileName ≠ some (.link target)) :
    lookup ⟨.directory entries, []⟩ .read (Path.join "." Config.fileName) =
      match entries.lookup Config.fileName with
      | some node => .ok node
      | none => .error .notFound := by
  have hsteps : Path.steps (Path.join "." Config.fileName) = [.here, .enter Config.fileName] := by
    decide
  have hne : Path.join "." Config.fileName ≠ "" := by decide
  have habsolute : Path.isAbsolute (Path.join "." Config.fileName) = false := by decide
  cases hnode : entries.lookup Config.fileName with
  | none =>
    simp [lookup, resolve, hne, hsteps, habsolute, follow, hnode, FileTree.at?, bind, Except.bind]
  | some node =>
    cases node with
    | link target => exact absurd hnode (h target)
    | file content | directory inner =>
      simp [lookup, resolve, hne, hsteps, habsolute, follow, hnode, FileTree.at?, bind, Except.bind]

theorem Disk.writePlace_here (entries : FileTree.Entries)
    (h : entries.lookup Report.fileName = none) :
    writePlace ⟨.directory entries, []⟩ (reportPath ⟨.directory entries, []⟩) =
      .ok [Report.fileName] := by
  have hsteps : Path.steps "/depscan.txt" = [.enter Report.fileName] := by decide
  rw [reportPath_of_top rfl]
  simp [writePlace, resolve, hsteps, follow, h, FileTree.at?, Path.isAbsolute, bind, Except.bind]

/-- What the report file holds. -/
def Report.fileContent (r : Report) : Text.Utf8.Bytes := Text.Utf8.encode r.plainText.toList

theorem Report.save_eq (r : Report) (disk : Disk) :
    r.save disk = (disk.writePlace disk.reportPath).map fun place =>
      (disk.reportPath, disk.withContent place r.fileContent) := by
  have hwrite : r.save disk =
      (disk.writeFile disk.reportPath r.fileContent).map fun disk' => (disk.reportPath, disk') := rfl
  rw [hwrite, Disk.writeFile_eq]
  cases disk.writePlace disk.reportPath <;> rfl

namespace CommandLine

namespace Options

/-- The settings of the configuration file. -/
def settings (options : Options) (disk : Disk) : Except ConfigError Config :=
  match options.configFile with
  | some path => (Config.ofFile disk path).map fun config => { config with root := options.root }
  | none => Config.load disk options.root

theorem configuration_eq (options : Options) (disk : Disk) :
    options.configuration disk = (options.settings disk).map options.merge := by
  rw [configuration, settings]
  cases options.configFile with
  | none =>
    simp only
    cases Config.load disk options.root <;> rfl
  | some path =>
    simp only
    cases Config.ofFile disk path <;> rfl

theorem settings_here (entries : FileTree.Entries) (h : entries.lookup Config.fileName = none)
    {options : Options} (hpath : options.path = none) (hconfig : options.configFile = none) :
    options.settings ⟨.directory entries, []⟩ = .ok {} := by
  have hfile : Disk.isFile ⟨.directory entries, []⟩ (Path.join "." Config.fileName) = false := by
    rw [Disk.isFile, Disk.lookup_config_here entries (by simp [h]), h]
  rw [settings, hconfig]
  simp [Config.load, root, hpath, hfile, bind, Except.bind, pure, Except.pure]

/-- How a run of the program can end. -/
inductive Ends (options : Options) (disk : Disk) (onTerminal : Bool) : Outcome → Prop
  | unconfigured {error : ConfigError} (hc : options.settings disk = .error error) :
    Ends options disk onTerminal ⟨1, "", configErrorText error, disk⟩
  | unscanned {config : Config} {error : ScanError} (hc : options.settings disk = .ok config)
    (hs : scan disk (options.merge config) = .error error) :
    Ends options disk onTerminal ⟨1, "", scanErrorText error, disk⟩
  | printed {config : Config} {r : Report} (hc : options.settings disk = .ok config)
    (hs : scan disk (options.merge config) = .ok r)
    (hf : (options.merge config).reportFile = false) :
    Ends options disk onTerminal
      ⟨options.status r, options.output (options.merge config) onTerminal r, "", disk⟩
  | unsaved {config : Config} {r : Report} {cause : FileError}
    (hc : options.settings disk = .ok config) (hs : scan disk (options.merge config) = .ok r)
    (hf : (options.merge config).reportFile = true)
    (hp : disk.writePlace disk.reportPath = .error cause) :
    Ends options disk onTerminal
      ⟨1, options.output (options.merge config) onTerminal r,
        Complaint.render ⟨cause.message, []⟩, disk⟩
  | saved {config : Config} {r : Report} {place : List String}
    (hc : options.settings disk = .ok config) (hs : scan disk (options.merge config) = .ok r)
    (hf : (options.merge config).reportFile = true)
    (hp : disk.writePlace disk.reportPath = .ok place) :
    Ends options disk onTerminal
      ⟨options.status r, options.output (options.merge config) onTerminal r,
        "Report written to " ++ disk.reportPath ++ "\n", disk.withContent place r.fileContent⟩

variable {options : Options} {disk : Disk} {onTerminal : Bool}

theorem Ends.run_eq {outcome : Outcome} (h : Ends options disk onTerminal outcome) :
    options.run disk onTerminal = outcome := by
  cases h with
  | unconfigured hc => simp only [run, configuration_eq, hc, Except.map]
  | unscanned hc hs => simp only [run, configuration_eq, hc, Except.map, hs]
  | printed hc hs hf =>
    simp only [run, configuration_eq, hc, Except.map, hs, finish, hf, Bool.false_eq_true, if_false]
  | unsaved hc hs hf hp =>
    simp only [run, configuration_eq, hc, Except.map, hs, finish, hf, if_true, Report.save_eq, hp]
  | saved hc hs hf hp =>
    simp only [run, configuration_eq, hc, Except.map, hs, finish, hf, if_true, Report.save_eq, hp]

theorem ends_run (options : Options) (disk : Disk) (onTerminal : Bool) :
    Ends options disk onTerminal (options.run disk onTerminal) := by
  have hrun {outcome : Outcome} (h : Ends options disk onTerminal outcome) :
      Ends options disk onTerminal (options.run disk onTerminal) := h.run_eq ▸ h
  cases hc : options.settings disk with
  | error error => exact hrun (.unconfigured hc)
  | ok config =>
    cases hs : scan disk (options.merge config) with
    | error error => exact hrun (.unscanned hc hs)
    | ok r =>
      cases hf : (options.merge config).reportFile with
      | false => exact hrun (.printed hc hs hf)
      | true =>
        cases hp : disk.writePlace disk.reportPath with
        | error cause => exact hrun (.unsaved hc hs hf hp)
        | ok place => exact hrun (.saved hc hs hf hp)

/-- A run goes well if its report comes about, can be written where it has to be, and has nothing
that the run must fail for. -/
theorem exit_eq_zero_iff : (options.run disk onTerminal).exit = 0 ↔
    ∃ config r, options.settings disk = .ok config ∧ scan disk (options.merge config) = .ok r ∧
      ((options.merge config).reportFile = true →
        ∃ place, disk.writePlace disk.reportPath = .ok place) ∧
      (options.ci = true → r.hasFindings ≠ true) := by
  have hstatus (r : Report) :
      options.status r = 0 ↔ (options.ci = true → r.hasFindings ≠ true) := by
    rw [status]
    split <;> simp_all
  constructor
  · intro h
    have hends := ends_run options disk onTerminal
    generalize options.run disk onTerminal = outcome at h hends
    cases hends with
    | unconfigured hc => cases h
    | unscanned hc hs => cases h
    | printed hc hs hf => exact ⟨_, _, hc, hs, by simp [hf], (hstatus _).mp h⟩
    | unsaved hc hs hf hp => cases h
    | saved hc hs hf hp => exact ⟨_, _, hc, hs, fun _ => ⟨_, hp⟩, (hstatus _).mp h⟩
  · rintro ⟨config, r, hc, hs, hw, hfind⟩
    have hz := (hstatus r).mpr hfind
    cases hf : (options.merge config).reportFile with
    | false =>
      rw [(Ends.printed hc hs hf).run_eq]
      exact hz
    | true =>
      obtain ⟨place, hp⟩ := hw hf
      rw [(Ends.saved hc hs hf hp).run_eq]
      exact hz

end Options

theorem run_of_ofArguments {arguments : List String} {options : Options}
    (h : Options.ofArguments arguments = .ok options) (disk : Disk) (onTerminal : Bool) :
    run arguments disk onTerminal = options.run disk onTerminal := by
  rw [run, h]

/-- A run on the small project that writes its report. -/
theorem run_smallProject_file : run ["--file"] smallProject false =
    ⟨0, (smallReport false).text .full false, "Report written to /depscan.txt\n",
      smallProject.withContent [Report.fileName] (smallReport false).fileContent⟩ := by
  have ho : Options.ofArguments ["--file"] = .ok { file := true } :=
    ok_of_toOption (by decide +kernel)
  have hends : Options.Ends { file := true } smallProject false _ :=
    .saved (Options.settings_here smallEntries rfl rfl rfl) (scan_smallProject rfl rfl) rfl
      (Disk.writePlace_here smallEntries rfl)
  rw [run_of_ofArguments ho, hends.run_eq, @Disk.reportPath_of_top smallProject rfl]
  rfl

end CommandLine

end ImportLedger
