import ImportLedger.Proofs.Assembly
import ImportLedger.Proofs.SourceLabels
import ImportLedger.Proofs.StatementOrder

/-! What the records of a scan point at. Each names a package and a line of a source file, and what
it quotes stands on that line. -/

namespace ImportLedger

open Text

/-- A line stands at its own number. -/
theorem getElem?_linesOfBytes {content : Utf8.Bytes} {line : Line}
    (h : line ∈ linesOfBytes content) :
    line.number ≤ (linesOfBytes content).length ∧
      (linesOfBytes content)[line.number - 1]? = some line := by
  obtain ⟨i, hi⟩ := List.mem_iff_getElem?.mp h
  have hlt : i < (linesOfBytes content).length := (List.getElem?_eq_some_iff.mp hi).1
  have hnumber : line.number = 1 + i := by
    have hmap : ((linesOfBytes content).map (·.number))[i]? = some line.number := by
      rw [List.getElem?_map, hi]
      rfl
    rw [linesOfBytes, Line.ofText] at hmap
    split at hmap
    · simp at hmap
    · rw [Line.map_number_numbered] at hmap
      simpa using (List.getElem?_eq_some_iff.mp hmap).2.symm
  refine ⟨by omega, ?_⟩
  rw [hnumber, Nat.add_sub_cancel_left]
  exact hi

/-- How a bound text and a reference stand in a line: the reference behind the bound text, or the
bound text within the reference. -/
def StandTogether (binding reference text : String) : Prop :=
  (∃ before between after, text = before ++ binding ++ between ++ reference ++ after) ∨
    binding.toList <:+: reference.toList ∧ reference.toList <:+: text.toList

theorem standTogether_of_mem {text : String} {b : BindingStatement}
    (h : b ∈ bindingStatements text) : StandTogether b.binding b.reference text := by
  obtain ⟨o, ho, hb⟩ := List.mem_map.mp (mem_bindingStatements.mp h)
  obtain ⟨p, c, r, left, ht, -, hr, -, htext⟩ := Occurrence.exists_of_mem_findAll ho
  obtain ⟨lead, link, -, -, -, -, hs⟩ := BindingShape.read_sound hr
  have hwhole : c :: r = lead ++ o.value.binding ++ link ++ o.value.reference ++ left := by
    simpa using hs
  have hbinding : b.binding = String.ofList o.value.binding := congrArg (·.binding) hb.symm
  have hreference := congrArg (·.reference) hb.symm
  have hcall (he : b.reference = String.ofList o.value.reference) :
      StandTogether b.binding b.reference text := by
    refine .inl ⟨String.ofList (p ++ lead), String.ofList link, String.ofList left, ?_⟩
    rw [← String.ofList_toList (s := text), ht, hwhole, hbinding, he]
    simp only [← String.ofList_append, List.append_assoc]
  cases hk : b.kind with
  | require =>
    rw [hk] at hreference
    exact hcall hreference
  | dynamicImport =>
    rw [hk] at hreference
    exact hcall hreference
  | importFrom =>
    rw [hk] at hreference
    have he : b.reference.toList = lead ++ o.value.binding ++ (link ++ o.value.reference) := by
      have hlist : b.reference.toList = o.text := by
        rw [hreference]
        exact String.toList_ofList
      rw [hlist, htext, hwhole, consumed_append, List.append_assoc]
    refine .inr ⟨?_, p, left, ?_⟩
    · rw [he, hbinding, String.toList_ofList]
      exact ⟨lead, _, rfl⟩
    · rw [ht, hwhole, he]
      simp only [List.append_assoc]

theorem infix_of_mem_requireCalls {text : String} {call : RequireCall}
    (h : call ∈ requireCalls text) : call.text.toList <:+: text.toList := by
  obtain ⟨o, ho, rfl⟩ := List.mem_map.mp h
  obtain ⟨p, c, r, left, ht, -, hr, -, htext⟩ := Occurrence.exists_of_mem_findAll ho
  obtain ⟨opening, closing, -, -, -, hs⟩ := ReferenceShape.read_sound hr
  have hwhole : c :: r = opening ++ o.value ++ closing ++ left := by simpa using hs
  refine ⟨p, left, ?_⟩
  rw [String.toList_ofList, htext, ht, hwhole, consumed_append, List.append_assoc]

/-- A record that names a package and a line of a file with its label, where the text is what the
record is about. -/
structure PointsAt (files : List SourceFile) (name label : String) (number : Nat)
    (about : String → Prop) : Prop where
  name_ne : name ≠ ""
  placed : ∃ file ∈ files, file.label = label ∧ 1 ≤ number ∧
    number ≤ (linesOfBytes file.content).length ∧
    ∃ text, (linesOfBytes file.content)[number - 1]? = some ⟨text, number⟩ ∧ about text

theorem pointsAt_of_mem {files : List SourceFile} {file : SourceFile} {line : Line}
    {specifier name : String} {about : String → Prop} (hf : file ∈ files)
    (hl : line ∈ linesOfBytes file.content) (hp : packageName specifier = some name)
    (h : about line.text) : PointsAt files name file.label line.number about := by
  obtain ⟨hle, hat⟩ := getElem?_linesOfBytes hl
  exact ⟨packageName_ne_empty hp,
    file, hf, rfl, number_pos_of_mem_linesOfBytes hl, hle, line.text, hat, h⟩

/-- The declaration that a usage record is for stands in a text. -/
def UsageRecord.StandsIn (u : UsageRecord) (text : String) : Prop :=
  ∃ b ∈ bindingStatements text, packageName b.specifier = some u.name ∧
    u.declaration = b.binding ++ "-" ++ b.reference ∧ StandTogether b.binding b.reference text

/-- The call that a require record is for stands in a text. -/
def RequireRecord.StandsIn (r : RequireRecord) (text : String) : Prop :=
  ∃ call ∈ requireCalls text, packageName call.specifier = some r.name ∧
    r.statement = call.text ∧ r.statement ≠ "" ∧ r.statement.toList <:+: text.toList

/-- The reference that a missing record is for is one of a text. -/
def MissingRecord.StandsIn (m : MissingRecord) (text : String) : Prop :=
  ∃ reference ∈ moduleReferences text, packageName reference.specifier = some m.name

namespace Scan

variable {declared : List Dependency} {sets : DependencySets} {files : List SourceFile}

theorem pointsAt_of_mem_usage {u : UsageRecord} (h : u ∈ files.flatMap (usage declared)) :
    1 ≤ u.occurrences ∧ PointsAt files u.name u.file u.line u.StandsIn := by
  obtain ⟨file, hf, hu⟩ := List.mem_flatMap.mp h
  obtain ⟨d, hd, rfl⟩ := List.mem_map.mp hu
  obtain ⟨line, hl, b, hb, hp, -, he⟩ := mem_findDeclarations.mp hd
  have hline : d.line = line.number := congrArg Declaration.line he
  have hliteral : d.literal = b.binding ++ "-" ++ b.reference := by
    rw [Declaration.literal, congrArg Declaration.binding he, congrArg Declaration.reference he]
  refine ⟨Nat.le_add_right 1 _, ?_⟩
  dsimp only
  rw [hline]
  exact pointsAt_of_mem hf hl hp ⟨b, hb, hp, hliteral, standTogether_of_mem hb⟩

theorem pointsAt_of_mem_requires {r : RequireRecord} (h : r ∈ files.flatMap (requires declared)) :
    PointsAt files r.name r.file r.line r.StandsIn := by
  obtain ⟨file, hf, hr⟩ := List.mem_flatMap.mp h
  obtain ⟨line, hl, call, hc, hp, -, he⟩ := mem_findRequires.mp hr
  have hfile : r.file = file.label := congrArg RequireRecord.file he
  have hline : r.line = line.number := congrArg RequireRecord.line he
  have hstatement : r.statement = call.text := congrArg RequireRecord.statement he
  rw [hfile, hline]
  refine pointsAt_of_mem hf hl hp ⟨call, hc, hp, hstatement, ?_, ?_⟩
  · rw [hstatement]
    exact text_ne_empty_of_requireCalls hc
  · rw [hstatement]
    exact infix_of_mem_requireCalls hc

theorem pointsAt_of_mem_missing {m : MissingRecord} (h : m ∈ files.flatMap (missing sets)) :
    PointsAt files m.name m.file m.line m.StandsIn := by
  obtain ⟨file, hf, hm⟩ := List.mem_flatMap.mp h
  obtain ⟨line, hl, reference, hr, hp, -, -, he⟩ := mem_findMissing.mp hm
  have hfile : m.file = file.label := congrArg MissingRecord.file he
  have hline : m.line = line.number := congrArg MissingRecord.line he
  rw [hfile, hline]
  exact pointsAt_of_mem hf hl hp ⟨reference, hr, hp⟩

end Scan

/-- A scan fails for its manifest or its source files, never for the records that it makes of
them. -/
theorem scan_ne_report_error (disk : Disk) (config : Config) (error : ReportError) :
    scan disk config ≠ .error (.report error) := by
  intro h
  rcases error_of_bind h with h | ⟨sets, -, h⟩
  · rcases error_of_bind h with h | ⟨lines, -, h⟩
    · obtain ⟨_, -, he⟩ := error_of_mapError h
      cases he
    · obtain ⟨_, -, he⟩ := error_of_mapError h
      cases he
  · rcases error_of_bind h with h | ⟨files, -, h⟩
    · obtain ⟨_, -, he⟩ := error_of_mapError h
      cases he
    · obtain ⟨cause, hr, -⟩ := error_of_mapError h
      obtain ⟨report, hok⟩ := Scan.report_isOk config.includeDev sets files
      rw [hok] at hr
      cases hr

/-- The records of a scan. They never keep a report from being made, and each of them names a
package and a line of one of the source files on which stands what the record quotes. -/
theorem scan_records_placed (disk : Disk) (config : Config) :
    (∀ error, scan disk config ≠ .error (.report error)) ∧
    (∀ sets files, Scan.readManifest disk config = .ok sets →
      findSources disk config.root config.excludedDirectories = .ok files →
      ∃ report, scan disk config = .ok report) ∧
    ∀ report, scan disk config = .ok report → ∃ files,
      findSources disk config.root config.excludedDirectories = .ok files ∧
      (disk.tree.wellFormed = true → (files.map SourceFile.label).Nodup) ∧
      (∀ u ∈ report.usage, 1 ≤ u.occurrences ∧ PointsAt files u.name u.file u.line u.StandsIn) ∧
      (∀ r ∈ report.requires, PointsAt files r.name r.file r.line r.StandsIn) ∧
      ∀ m ∈ report.missing, PointsAt files m.name m.file m.line m.StandsIn := by
  refine ⟨scan_ne_report_error disk config, ?_, fun report h => ?_⟩
  · intro sets files hs hf
    obtain ⟨report, h, -⟩ := scan_isOk config hs hf
    exact ⟨report, h⟩
  obtain ⟨sets, files, -, hf, hr⟩ := scan_ok h
  rw [Report.assemble_ok hr]
  exact ⟨files, hf, fun hw => nodup_label_of_findSources hw hf,
    fun u hu => Scan.pointsAt_of_mem_usage hu, fun r hr => Scan.pointsAt_of_mem_requires hr,
    fun m hm => Scan.pointsAt_of_mem_missing hm⟩

theorem scan_records_placed_roi_ws :
    ∃ report files, scan smallProject {} = .ok report ∧
      report.usage = [⟨"roi", "\x7bget\x7d-require('roi')", "index.js", 2, 1⟩] ∧
      report.requires = [⟨"roi", "require('roi')", "index.js", 2⟩] ∧
      report.missing = [⟨"ws", "index.js", 2⟩] ∧
      (∀ u ∈ report.usage, 1 ≤ u.occurrences ∧ PointsAt files u.name u.file u.line u.StandsIn) ∧
      (∀ r ∈ report.requires, PointsAt files r.name r.file r.line r.StandsIn) ∧
      ∀ m ∈ report.missing, PointsAt files m.name m.file m.line m.StandsIn := by
  have h : scan smallProject {} = .ok (smallReport false) := scan_smallProject rfl rfl
  obtain ⟨files, -, -, husage, hrequires, hmissing⟩ :=
    (scan_records_placed smallProject {}).2.2 _ h
  exact ⟨_, files, h, rfl, rfl, rfl, husage, hrequires, hmissing⟩

end ImportLedger
