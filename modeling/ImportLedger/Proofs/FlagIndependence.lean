import ImportLedger.Proofs.AddedSwitches
import ImportLedger.Proofs.Assembly
import ImportLedger.Proofs.RunSteps

/-! What the flags of the command line have to do with each other. Each one changes its own part of
a run: what is printed, what is written, or the exit status. -/

namespace ImportLedger.CommandLine

namespace Options

/-- The report of a run that comes to one. -/
def report? (options : Options) (disk : Disk) : Option Report :=
  (options.configuration disk).toOption.bind fun config => (scan disk config).toOption

/-- Options that scan a disk in the same way. -/
structure ScansAs (options other : Options) (disk : Disk) : Prop where
  settings_eq : options.settings disk = other.settings disk
  scan_eq (config : Config) : scan disk (options.merge config) = scan disk (other.merge config)

variable {options other : Options} {disk : Disk} {onTerminal : Bool}

theorem report?_eq {config : Config} (hc : options.settings disk = .ok config) :
    options.report? disk = (scan disk (options.merge config)).toOption := by
  rw [report?, configuration_eq, hc]
  rfl

/-- A report is printed whether it can be written or not. -/
theorem stdout_of_scan {config : Config} {r : Report} (hc : options.settings disk = .ok config)
    (hs : scan disk (options.merge config) = .ok r) (onTerminal : Bool) :
    (options.run disk onTerminal).stdout = options.output (options.merge config) onTerminal r := by
  cases hf : (options.merge config).reportFile with
  | false => rw [(Ends.printed hc hs hf).run_eq]
  | true =>
    cases hp : disk.writePlace disk.reportPath with
    | error cause => rw [(Ends.unsaved hc hs hf hp).run_eq]
    | ok place => rw [(Ends.saved hc hs hf hp).run_eq]

theorem ScansAs.stdout_eq (h : options.ScansAs other disk)
    (hout : ∀ config r, options.output (options.merge config) onTerminal r =
      other.output (other.merge config) onTerminal r) :
    (options.run disk onTerminal).stdout = (other.run disk onTerminal).stdout := by
  cases hc : other.settings disk with
  | error error =>
    rw [(Ends.unconfigured hc).run_eq, (Ends.unconfigured (h.settings_eq.trans hc)).run_eq]
  | ok config =>
    have hc' := h.settings_eq.trans hc
    cases hs : scan disk (other.merge config) with
    | error error =>
      rw [(Ends.unscanned hc hs).run_eq, (Ends.unscanned hc' ((h.scan_eq config).trans hs)).run_eq]
    | ok r =>
      rw [stdout_of_scan hc hs, stdout_of_scan hc' ((h.scan_eq config).trans hs)]
      exact hout config r

theorem ScansAs.stderr_disk_eq (h : options.ScansAs other disk)
    (hfile : ∀ config, (options.merge config).reportFile = (other.merge config).reportFile)
    (onTerminal : Bool) :
    (options.run disk onTerminal).stderr = (other.run disk onTerminal).stderr ∧
      (options.run disk onTerminal).disk = (other.run disk onTerminal).disk := by
  have hends := ends_run other disk onTerminal
  generalize other.run disk onTerminal = outcome at hends
  cases hends with
  | unconfigured hc =>
    rw [(Ends.unconfigured (h.settings_eq.trans hc)).run_eq]
    exact ⟨rfl, rfl⟩
  | unscanned hc hs =>
    rw [(Ends.unscanned (h.settings_eq.trans hc) ((h.scan_eq _).trans hs)).run_eq]
    exact ⟨rfl, rfl⟩
  | printed hc hs hf =>
    have hf' := (hfile _).trans hf
    rw [(Ends.printed (h.settings_eq.trans hc) ((h.scan_eq _).trans hs) hf').run_eq]
    exact ⟨rfl, rfl⟩
  | unsaved hc hs hf hp =>
    have hf' := (hfile _).trans hf
    rw [(Ends.unsaved (h.settings_eq.trans hc) ((h.scan_eq _).trans hs) hf' hp).run_eq]
    exact ⟨rfl, rfl⟩
  | saved hc hs hf hp =>
    have hf' := (hfile _).trans hf
    rw [(Ends.saved (h.settings_eq.trans hc) ((h.scan_eq _).trans hs) hf' hp).run_eq]
    exact ⟨rfl, rfl⟩

/-- Failing for findings makes a difference where there are some and all else has gone well. -/
theorem exit_ci (options : Options) (disk : Disk) (onTerminal : Bool) :
    ({ options with ci := true }.run disk onTerminal).exit =
      if (options.run disk onTerminal).exit = 0 ∧
        (options.report? disk).any Report.hasFindings = true then 1
      else (options.run disk onTerminal).exit := by
  have hstatus {config : Config} {r : Report} (hc : options.settings disk = .ok config)
      (hs : scan disk (options.merge config) = .ok r) :
      { options with ci := true }.status r =
        if options.status r = 0 ∧ (options.report? disk).any Report.hasFindings = true then 1
        else options.status r := by
    have hreport : options.report? disk = some r := by
      rw [report?_eq hc, hs]
      rfl
    rw [hreport, Option.any_some, status, status]
    cases r.hasFindings <;> cases options.ci <;> rfl
  have hends := ends_run options disk onTerminal
  generalize options.run disk onTerminal = outcome at hends
  cases hends with
  | @unconfigured error hc =>
    have hends' : Ends { options with ci := true } disk onTerminal _ := .unconfigured hc
    rw [hends'.run_eq]
    rfl
  | @unscanned config error hc hs =>
    have hends' : Ends { options with ci := true } disk onTerminal _ := .unscanned hc hs
    rw [hends'.run_eq]
    rfl
  | printed hc hs hf =>
    have hends' : Ends { options with ci := true } disk onTerminal _ := .printed hc hs hf
    rw [hends'.run_eq]
    exact hstatus hc hs
  | unsaved hc hs hf hp =>
    have hends' : Ends { options with ci := true } disk onTerminal _ := .unsaved hc hs hf hp
    rw [hends'.run_eq]
    rfl
  | saved hc hs hf hp =>
    have hends' : Ends { options with ci := true } disk onTerminal _ := .saved hc hs hf hp
    rw [hends'.run_eq]
    exact hstatus hc hs

/-- A report that is to be written, and can be, is in its file: the full text without colours. -/
theorem disk_of_save {config : Config} {r : Report} {path : String} {disk' : Disk}
    (hc : options.configuration disk = .ok config) (hs : scan disk config = .ok r)
    (hf : config.reportFile = true) (hsave : r.save disk = .ok (path, disk')) (onTerminal : Bool) :
    (options.run disk onTerminal).disk = disk' ∧ disk'.readFile path = .ok r.fileContent := by
  rw [configuration_eq] at hc
  obtain ⟨base, hbase, rfl⟩ := ok_of_map hc
  rw [Report.save_eq] at hsave
  obtain ⟨place, hp, he⟩ := ok_of_map hsave
  obtain ⟨rfl, rfl⟩ := Prod.mk.inj he
  rw [(Ends.saved hbase hs hf hp).run_eq]
  exact ⟨rfl, Disk.readFile_written hp _⟩

/-- A run writes nothing but its report. -/
theorem disk_run (options : Options) (disk : Disk) (onTerminal : Bool) :
    (options.run disk onTerminal).disk = disk ∨
      ∃ config r path, options.configuration disk = .ok config ∧ scan disk config = .ok r ∧
        config.reportFile = true ∧
        r.save disk = .ok (path, (options.run disk onTerminal).disk) := by
  have hends := ends_run options disk onTerminal
  generalize options.run disk onTerminal = outcome at hends
  cases hends with
  | unconfigured hc => exact .inl rfl
  | unscanned hc hs => exact .inl rfl
  | printed hc hs hf => exact .inl rfl
  | unsaved hc hs hf hp => exact .inl rfl
  | saved hc hs hf hp =>
    refine .inr ⟨_, _, disk.reportPath, ?_, hs, hf, ?_⟩
    · rw [configuration_eq, hc]
      rfl
    · rw [Report.save_eq, hp]
      rfl

end Options

/-- What the flags of a list of arguments leave alone. -/
structure FlagsSeparate (arguments : List String) (options : Options) (disk : Disk)
    (onTerminal : Bool) : Prop where
  /-- To fail for findings changes the exit status alone. -/
  ci (arguments' : List String) (h : Options.ofArguments arguments' = .ok { options with ci := true }) :
    (run arguments' disk onTerminal).stdout = (run arguments disk onTerminal).stdout ∧
      (run arguments' disk onTerminal).stderr = (run arguments disk onTerminal).stderr ∧
      (run arguments' disk onTerminal).disk = (run arguments disk onTerminal).disk ∧
      (run arguments' disk onTerminal).exit =
        if (run arguments disk onTerminal).exit = 0 ∧
          (options.report? disk).any Report.hasFindings = true then 1
        else (run arguments disk onTerminal).exit
  /-- In JSON there is neither a summary nor a colour. -/
  json (hformat : options.format = some .json) (arguments' : List String) (summary : Bool)
    (color : Option ColorChoice)
    (h : Options.ofArguments arguments' = .ok { options with summary, color }) :
    (run arguments' disk onTerminal).stdout = (run arguments disk onTerminal).stdout
  /-- What is printed is printed whether the report is written, is not, or cannot be. -/
  file (arguments' : List String)
    (h : Options.ofArguments arguments' = .ok { options with file := true }) :
    (run arguments' disk onTerminal).stdout = (run arguments disk onTerminal).stdout
  /-- A report file that is written holds the plain full text of the report. -/
  written (config : Config) (r : Report) (path : String) (disk' : Disk)
    (hc : options.configuration disk = .ok config) (hs : scan disk config = .ok r)
    (hf : config.reportFile = true) (hsave : r.save disk = .ok (path, disk')) :
    (run arguments disk onTerminal).disk = disk' ∧
      disk'.readFile path = .ok (Text.Utf8.encode r.plainText.toList)
  /-- Nothing else is written. -/
  unwritten : (run arguments disk onTerminal).disk = disk ∨
    ∃ config r path, options.configuration disk = .ok config ∧ scan disk config = .ok r ∧
      config.reportFile = true ∧ r.save disk = .ok (path, (run arguments disk onTerminal).disk)
  /-- Whether the file is written and what it holds does not depend on how the report is printed. -/
  written_alike (arguments' : List String) (format : Option Format) (summary : Bool)
    (color : Option ColorChoice) (ci : Bool)
    (h : Options.ofArguments arguments' = .ok { options with format, summary, color, ci }) :
    (run arguments' disk onTerminal).disk = (run arguments disk onTerminal).disk
  /-- A switch put anywhere among the arguments is turned on, unless it stands for the path. -/
  added (before after : List String) (name : String) (switch : Switch) (options' : Options)
    (h : arguments = before ++ after) (hname : Switch.ofLong? name = some switch)
    (h' : Options.ofArguments (before ++ ("--" ++ name) :: after) = .ok options') :
    options' = switch.add options ∨
      options.path = none ∧ options' = { options with path := some ("--" ++ name) }

theorem flags_separate {arguments : List String} {options : Options}
    (h : Options.ofArguments arguments = .ok options) (disk : Disk) (onTerminal : Bool) :
    FlagsSeparate arguments options disk onTerminal where
  ci := by
    intro arguments' h'
    have hscans : Options.ScansAs { options with ci := true } options disk := ⟨rfl, fun _ => rfl⟩
    obtain ⟨hstderr, hdisk⟩ := hscans.stderr_disk_eq (fun _ => rfl) onTerminal
    rw [run_of_ofArguments h, run_of_ofArguments h']
    exact ⟨hscans.stdout_eq fun _ _ => rfl, hstderr, hdisk, options.exit_ci disk onTerminal⟩
  json := by
    intro hformat arguments' summary color h'
    have hscans : Options.ScansAs { options with summary, color } options disk :=
      ⟨rfl, fun _ => rfl⟩
    rw [run_of_ofArguments h, run_of_ofArguments h']
    exact hscans.stdout_eq fun _ _ => by simp only [Options.output, hformat, Option.getD_some]
  file := by
    intro arguments' h'
    have hscans : Options.ScansAs { options with file := true } options disk := ⟨rfl, fun _ => rfl⟩
    rw [run_of_ofArguments h, run_of_ofArguments h']
    exact hscans.stdout_eq fun _ _ => rfl
  written := by
    intro config r path disk' hc hs hf hsave
    rw [run_of_ofArguments h]
    exact Options.disk_of_save hc hs hf hsave onTerminal
  unwritten := by
    rw [run_of_ofArguments h]
    exact options.disk_run disk onTerminal
  written_alike := by
    intro arguments' format summary color ci h'
    have hscans : Options.ScansAs { options with format, summary, color, ci } options disk :=
      ⟨rfl, fun _ => rfl⟩
    rw [run_of_ofArguments h, run_of_ofArguments h']
    exact (hscans.stderr_disk_eq (fun _ => rfl) onTerminal).2
  added := by
    rintro before after name switch options' rfl hname h'
    obtain ⟨plain, hp, he⟩ := Options.take_insert hname h'
    obtain rfl := Except.ok.inj (hp.symm.trans h)
    exact he

theorem flags_separate_ws :
    Options.ofArguments ["--file"] = .ok { file := true } ∧
      (run ["--file"] smallProject false).exit = 0 ∧
      (run ["--file", "--ci"] smallProject false).exit = 1 ∧
      (run ["--file", "--ci"] smallProject false).disk =
        (run ["--file"] smallProject false).disk ∧
      ∃ r, scan smallProject { reportFile := true } = .ok r ∧
        r.missing = [⟨"ws", "index.js", 2⟩] ∧
        (run ["--file"] smallProject false).disk.readFile "/depscan.txt" =
          .ok (Text.Utf8.encode r.plainText.toList) := by
  have ho : Options.ofArguments ["--file"] = .ok { file := true } :=
    ok_of_toOption (by decide +kernel)
  have ho' : Options.ofArguments ["--file", "--ci"] = .ok { file := true, ci := true } :=
    ok_of_toOption (by decide +kernel)
  have hr : scan smallProject { reportFile := true } = .ok (smallReport false) :=
    scan_smallProject rfl rfl
  have hexit : (run ["--file"] smallProject false).exit = 0 := by rw [run_smallProject_file]
  have hseparate := flags_separate ho smallProject false
  obtain ⟨-, -, hdisk, hstrict⟩ := hseparate.ci _ ho'
  have hreport : Options.report? { file := true } smallProject = some (smallReport false) := by
    have hsettings : Options.settings { file := true } smallProject = .ok {} :=
      Options.settings_here smallEntries rfl rfl rfl
    rw [Options.report?_eq hsettings]
    exact congrArg Except.toOption hr
  have hfails : (run ["--file"] smallProject false).exit = 0 ∧
      (Options.report? { file := true } smallProject).any Report.hasFindings = true :=
    ⟨hexit, by rw [hreport]; decide⟩
  rw [if_pos hfails] at hstrict
  refine ⟨ho, hexit, hstrict, hdisk, _, hr, rfl, ?_⟩
  rw [run_smallProject_file, ← @Disk.reportPath_of_top smallProject rfl]
  exact Disk.readFile_written (Disk.writePlace_here smallEntries rfl) _

end ImportLedger.CommandLine
