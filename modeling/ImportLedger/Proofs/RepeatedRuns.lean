import ImportLedger.Proofs.UnseenWrites

/-! Running the program again. The report file is nothing that a run reads, unless it is named as
the configuration file, so that the second run does and leaves what the first one did. -/

namespace ImportLedger

/-- Two paths lead to one and the same thing. -/
def Disk.SameTarget (disk : Disk) (path other : String) : Prop :=
  ∃ place, disk.resolve .read path = .ok (.found place) ∧
    disk.resolve .read other = .ok (.found place)

theorem Report.ofPath?_fileName : Language.ofPath? fileName = none := by decide +kernel

theorem Disk.reportPlace_ok {disk : Disk} {place : List String} (hfree : disk.tree.NoLink)
    (h : disk.writePlace disk.reportPath = .ok place) :
    ∃ parent, place = parent ++ [Report.fileName] := by
  obtain ⟨-, target, hr, ht, -⟩ := writePlace_ok h
  obtain ⟨parent, _, -, he, -⟩ := resolve_join hfree (by decide) hr
  refine ⟨parent, ?_⟩
  rcases he with rfl | rfl
  · rw [Target.written, if_neg (by simp)] at ht
    exact (Target.found.inj ht).symm
  · rw [Target.written] at ht
    split at ht
    · exact (Target.vacant.inj ‹_›).symm
    · cases ht

/-- Whatever leads to the place of the report file names that file. -/
theorem Disk.sameTarget_of_place {disk : Disk} {place : List String} {path : String}
    {content : Text.Utf8.Bytes} (h : disk.writePlace disk.reportPath = .ok place)
    (hread : disk.readFile path = .ok content)
    (hr : disk.resolve .read path = .ok (.found place)) : disk.SameTarget path disk.reportPath := by
  obtain ⟨-, target, hw, -, hpresent⟩ := writePlace_ok h
  obtain ⟨other, hr', ha⟩ := readFile_ok hread
  obtain rfl := Target.found.inj (Except.ok.inj (hr'.symm.trans hr))
  obtain rfl := hpresent _ ha
  exact ⟨other, hr, resolve_read_of_write hw⟩

namespace CommandLine

variable {options : Options} {disk : Disk} {onTerminal : Bool}

theorem Options.settings_withContent {parent : List String} {config : Config}
    (hfree : disk.tree.NoLink)
    (hp : disk.writePlace disk.reportPath = .ok (parent ++ [Report.fileName]))
    (hconfig : ∀ path, options.configFile = some path → ¬ disk.SameTarget path disk.reportPath)
    (h : options.settings disk = .ok config) (new : Text.Utf8.Bytes) :
    options.settings (disk.withContent (parent ++ [Report.fileName]) new) = .ok config := by
  have hw := (Disk.writePlace_ok hp).1
  cases hfile : options.configFile with
  | none =>
    rw [settings, hfile] at h ⊢
    exact Config.load_withContent hfree hw (by decide) h new
  | some path =>
    rw [settings, hfile] at h ⊢
    obtain ⟨read, hread, rfl⟩ := ok_of_map h
    have hne : disk.resolve .read path ≠ .ok (.found (parent ++ [Report.fileName])) := by
      intro hr
      obtain ⟨content, hc⟩ := Config.readFile_of_ofFile hread
      exact hconfig path hfile (Disk.sameTarget_of_place hp hc hr)
    simp only [Config.ofFile_withContent hw hread hne new]
    rfl

/-- A run that has written its report does so again. -/
theorem Options.Ends.again {outcome : Outcome} (hfree : disk.tree.NoLink)
    (hconfig : ∀ path, options.configFile = some path → ¬ disk.SameTarget path disk.reportPath)
    (h : options.Ends disk onTerminal outcome) : options.Ends outcome.disk onTerminal outcome := by
  cases h with
  | unconfigured hc => exact .unconfigured hc
  | unscanned hc hs => exact .unscanned hc hs
  | printed hc hs hf => exact .printed hc hs hf
  | unsaved hc hs hf hp => exact .unsaved hc hs hf hp
  | @saved config r place hc hs hf hp =>
    -- Neither the settings nor the scan see the report, and its place is taken again.
    obtain ⟨parent, rfl⟩ := Disk.reportPlace_ok hfree hp
    have hw := (Disk.writePlace_ok hp).1
    have hs' := scan_withContent_other hfree hw (by decide) Report.ofPath?_fileName hs r.fileContent
    have hagain : options.Ends _ onTerminal _ :=
      .saved (settings_withContent hfree hp hconfig hc r.fileContent) hs' hf
        (Disk.writePlace_withContent hp r.fileContent)
    rw [Disk.withContent_withContent] at hagain
    exact hagain

/-- On what a run has left behind, the same arguments do the same again: they print the same, end
with the same status and leave every file as it is. -/
theorem run_again {arguments : List String} {disk : Disk} (hfree : disk.tree.linkFree = true)
    (hconfig : ∀ options path, Options.ofArguments arguments = .ok options →
      options.configFile = some path → ¬ disk.SameTarget path disk.reportPath)
    (onTerminal : Bool) :
    let first := run arguments disk onTerminal
    run arguments first.disk onTerminal = first := by
  intro first
  cases ho : Options.ofArguments arguments with
  | error refusal =>
    have hdisk : first.disk = disk := by
      have hfirst : first = run arguments disk onTerminal := rfl
      rw [hfirst, run, ho]
      cases refusal <;> rfl
    rw [hdisk]
  | ok options =>
    have hends := options.ends_run disk onTerminal
    have hfirst : first = options.run disk onTerminal := run_of_ofArguments ho disk onTerminal
    have hagain :=
      hends.again (FileTree.noLink_of_linkFree hfree) fun path => hconfig options path ho
    rw [hfirst, run_of_ofArguments ho]
    exact hagain.run_eq

theorem run_again_file :
    let first := run ["--file"] smallProject false
    smallProject.tree.linkFree = true ∧ run ["--file"] first.disk false = first ∧
      first.stderr = "Report written to /depscan.txt\n" := by
  have hfree : smallProject.tree.linkFree = true := by decide
  have ho : Options.ofArguments ["--file"] = .ok { file := true } :=
    ok_of_toOption (by decide +kernel)
  have hfile : ∀ options path, Options.ofArguments ["--file"] = .ok options →
      options.configFile = some path →
        ¬ smallProject.SameTarget path smallProject.reportPath := by
    intro options path ho' hconfig
    obtain rfl := Except.ok.inj (ho.symm.trans ho')
    cases hconfig
  exact ⟨hfree, run_again hfree hfile false, congrArg Outcome.stderr run_smallProject_file⟩

end CommandLine

end ImportLedger
