import ImportLedger.Proofs.ColorCodes

/-! Coloured reports. No text of a report but its own strings could hold a code, so that the codes of
its colours can be told from all the rest. -/

namespace ImportLedger

open ColorCode

/-- A text without the character that codes begin with. -/
def Unescaped (s : String) : Prop := escape ∉ s.toList

instance (s : String) : Decidable (Unescaped s) := inferInstanceAs (Decidable (_ ∉ _))

@[simp]
theorem unescaped_append {s t : String} : Unescaped (s ++ t) ↔ Unescaped s ∧ Unescaped t := by
  simp [Unescaped, not_or]

@[simp]
theorem unescaped_repr (n : Nat) : Unescaped n.repr := by
  intro h
  have hdigits : escape ∈ Nat.toDigits 10 n := by simpa using h
  exact absurd (Nat.isDigit_of_mem_toDigits (by decide) (by decide) hdigits) (by decide)

theorem unescaped_intercalate {separator : String} (hs : Unescaped separator) {parts : List String}
    (h : ∀ part ∈ parts, Unescaped part) : Unescaped (separator.intercalate parts) := by
  induction parts with
  | nil => simp [Unescaped]
  | cons part parts ih =>
    cases parts with
    | nil => simpa using h
    | cons next parts =>
      have hlater := ih fun p hp => h p (by simp [hp])
      rw [String.intercalate_cons_cons]
      simp [hs, hlater, h part]

/-- A document whose spans have no such character. -/
def PlainSpans (document : List Span) : Prop := ∀ span ∈ document, Unescaped span.text

@[simp]
theorem plainSpans_nil : PlainSpans [] := by simp [PlainSpans]

@[simp]
theorem plainSpans_cons {span : Span} {document : List Span} :
    PlainSpans (span :: document) ↔ Unescaped span.text ∧ PlainSpans document := by
  simp [PlainSpans]

@[simp]
theorem plainSpans_append {a b : List Span} :
    PlainSpans (a ++ b) ↔ PlainSpans a ∧ PlainSpans b := by
  simp [PlainSpans, or_imp, forall_and]

@[simp]
theorem plainSpans_flatMap {α : Type} {f : α → List Span} {l : List α} :
    PlainSpans (l.flatMap f) ↔ ∀ a ∈ l, PlainSpans (f a) := by
  simp only [PlainSpans, List.mem_flatMap]
  exact ⟨fun h a ha span hs => h span ⟨a, ha, hs⟩, fun h span ⟨a, ha, hs⟩ => h a ha span hs⟩

@[simp]
theorem plainSpans_getD {o : Option (List Span)} :
    PlainSpans (o.getD []) ↔ ∀ document ∈ o, PlainSpans document := by
  cases o <;> simp

namespace Report

/-- The dependencies that a report names, declared or unused. -/
def allDependencies (r : Report) : List Dependency :=
  r.dependencies.toList ++ r.unused.production.dependencies ++
    (r.unused.dev.map Unused.dependencies).getD []

/-- All strings of a report. -/
def strings (r : Report) : List String :=
  r.allDependencies.flatMap (fun d : Dependency => [d.name, d.version]) ++
    r.usage.flatMap (fun u : UsageRecord => [u.name, u.declaration, u.file]) ++
    r.requires.flatMap (fun q : RequireRecord => [q.name, q.statement, q.file]) ++
    r.missing.flatMap (fun m : MissingRecord => [m.name, m.file])

variable {r : Report}

theorem forall_strings {p : String → Prop} : (∀ s ∈ r.strings, p s) ↔
    (∀ d ∈ r.allDependencies, p d.name ∧ p d.version) ∧
      (∀ u ∈ r.usage, p u.name ∧ p u.declaration ∧ p u.file) ∧
      (∀ q ∈ r.requires, p q.name ∧ p q.statement ∧ p q.file) ∧
      ∀ m ∈ r.missing, p m.name ∧ p m.file := by
  simp only [strings, List.forall_mem_append, List.forall_mem_flatMap, List.forall_mem_cons,
    List.not_mem_nil, false_imp_iff, implies_true, and_true, and_assoc]

@[simp]
theorem plainSpans_line {spans : List Span} : PlainSpans (line spans) ↔ PlainSpans spans := by
  have hend : Unescaped "\n" := by decide
  simp [line, Span.plain, hend]

@[simp]
theorem plainSpans_heading {text : String} : PlainSpans (heading text) ↔ Unescaped text := by
  simp [heading]

theorem unescaped_place {file : String} (h : Unescaped file) (n : Nat) :
    Unescaped (place file n) := by
  have hcolon : Unescaped ":" := by decide
  simp [place, h, hcolon]

theorem unescaped_display {d : Dependency} (h : Unescaped d.name ∧ Unescaped d.version) :
    Unescaped d.display := by
  have hat : Unescaped "@" := by decide
  simp [Dependency.display, h, hat]

theorem plainSpans_groupLines {label : String} (hl : Unescaped label)
    {dependencies : List Dependency}
    (h : ∀ d ∈ dependencies, Unescaped d.name ∧ Unescaped d.version) :
    PlainSpans (groupLines label dependencies) := by
  have hmarks : Unescaped "  " ∧ Unescaped " (" ∧ Unescaped ")" ∧ Unescaped "    " := by decide
  have hlines : ∀ d ∈ dependencies, Unescaped d.display := fun d hd => unescaped_display (h d hd)
  simpa [groupLines, Span.plain, hl, hmarks] using hlines

theorem unescaped_joinedNames {names : List String} (h : ∀ name ∈ names, Unescaped name) :
    Unescaped (joinedNames names) :=
  unescaped_intercalate (by decide) h

/-- A text for unused dependencies that has no code if they have none. -/
theorem unescaped_unusedSpan {write : Unused → String} {u : Unused}
    (h : Unescaped (write u)) : Unescaped (unusedSpan write u).text := by
  cases u with
  | allBound => exact (by decide : Unescaped noneText)
  | unbound list => exact h

theorem unescaped_unused_display {u : Unused}
    (h : ∀ d ∈ u.dependencies, Unescaped d.name ∧ Unescaped d.version) : Unescaped u.display := by
  cases u with
  | allBound => exact (by decide : Unescaped noneText)
  | unbound list =>
    refine unescaped_intercalate (by decide) fun part hp => ?_
    obtain ⟨d, hd, rfl⟩ := List.mem_map.mp hp
    exact unescaped_display (h d hd)

theorem unescaped_unused_names {u : Unused}
    (h : ∀ d ∈ u.dependencies, Unescaped d.name ∧ Unescaped d.version) :
    Unescaped (joinedNames u.names) := by
  refine unescaped_joinedNames fun name hn => ?_
  obtain ⟨d, hd, rfl⟩ := List.mem_map.mp hn
  exact (h d hd).1

theorem plainSpans_dependencyLines
    (h : ∀ d ∈ r.allDependencies, Unescaped d.name ∧ Unescaped d.version) :
    PlainSpans (dependencyLines r.dependencies) := by
  simp only [allDependencies, DependencySets.toList, List.forall_mem_append] at h
  obtain ⟨⟨⟨hproduction, hdev⟩, -⟩, -⟩ := h
  rw [dependencyLines, plainSpans_append, plainSpans_getD]
  refine ⟨plainSpans_groupLines (by decide) hproduction, ?_⟩
  intro document hd
  obtain ⟨dev, hlist, rfl⟩ := Option.map_eq_some_iff.mp hd
  rw [hlist] at hdev
  exact plainSpans_groupLines (by decide) hdev

theorem mem_map_name_of_mem_occurrences {name : String} {total : Nat}
    (h : (name, total) ∈ r.occurrences) : name ∈ r.usage.map (·.name) := by
  obtain ⟨_, hn, he⟩ := List.mem_map.mp h
  obtain ⟨rfl, -⟩ := Prod.mk.inj he
  exact List.mem_eraseDups.mp hn

theorem plainSpans_usageLines
    (h : ∀ u ∈ r.usage, Unescaped u.name ∧ Unescaped u.declaration ∧ Unescaped u.file) :
    PlainSpans r.usageLines := by
  rw [usageLines]
  split
  · simp +decide [noneLine, Span.plain]
  · simp only [plainSpans_flatMap, plainSpans_append, plainSpans_line]
    rintro ⟨name, total⟩ hn
    obtain ⟨u, hu, rfl⟩ := List.mem_map.mp (mem_map_name_of_mem_occurrences hn)
    refine ⟨by simp +decide [Span.plain, Span.badge, h u hu], fun u' hu' => ?_⟩
    obtain ⟨-, hdeclaration, hfile⟩ := h u' (List.mem_filter.mp hu').1
    simp +decide [Span.plain, hdeclaration, unescaped_place hfile]

theorem plainSpans_requireLines
    (h : ∀ q ∈ r.requires, Unescaped q.name ∧ Unescaped q.statement ∧ Unescaped q.file) :
    PlainSpans r.requireLines := by
  rw [requireLines]
  split
  · simp +decide [noneLine, Span.plain]
  · simp only [plainSpans_flatMap, plainSpans_line]
    intro q hq
    obtain ⟨-, hstatement, hfile⟩ := h q hq
    simp +decide [Span.plain, hstatement, unescaped_place hfile]

theorem plainSpans_missingLines (h : ∀ m ∈ r.missing, Unescaped m.name ∧ Unescaped m.file) :
    PlainSpans r.missingLines := by
  rw [missingLines]
  split
  · simp +decide [noneLine, noneSpan, Span.plain]
  · simp only [plainSpans_flatMap, plainSpans_line]
    intro m hm
    obtain ⟨hname, hfile⟩ := h m hm
    simp +decide [Span.plain, hname, unescaped_place hfile]

theorem plainSpans_unusedLines
    (h : ∀ d ∈ r.allDependencies, Unescaped d.name ∧ Unescaped d.version) :
    PlainSpans r.unusedLines := by
  simp only [allDependencies, List.forall_mem_append] at h
  obtain ⟨⟨-, hproduction⟩, hdev⟩ := h
  rw [unusedLines, plainSpans_append, plainSpans_getD]
  constructor
  · have hspan := unescaped_unusedSpan (unescaped_unused_display hproduction)
    simp +decide [Span.plain, hspan]
  · intro document hd
    obtain ⟨dev, hlist, rfl⟩ := Option.map_eq_some_iff.mp hd
    rw [hlist] at hdev
    have hspan := unescaped_unusedSpan (unescaped_unused_display hdev)
    simp +decide [Span.plain, hspan]

theorem plainSpans_fullDocument (h : ∀ s ∈ r.strings, Unescaped s) :
    PlainSpans r.fullDocument := by
  obtain ⟨hdependencies, husage, hrequires, hmissing⟩ := forall_strings.mp h
  simp +decide [fullDocument, plainSpans_dependencyLines hdependencies,
    plainSpans_usageLines husage, plainSpans_requireLines hrequires,
    plainSpans_unusedLines hdependencies, plainSpans_missingLines hmissing]

theorem plainSpans_entry {label : String} (hl : Unescaped label) {value : List Span} :
    PlainSpans (entry label value) ↔ PlainSpans value := by
  simp +decide [entry, Span.plain, hl]

theorem unescaped_missingSpan (h : ∀ m ∈ r.missing, Unescaped m.name ∧ Unescaped m.file) :
    Unescaped r.missingSpan.text := by
  have hnames : ∀ name ∈ r.missingNames, Unescaped name := by
    intro name hn
    have hmem := List.mem_eraseDups.mp ((sortBy_perm _ _).mem_iff.mp hn)
    obtain ⟨m, hm, rfl⟩ := List.mem_map.mp hmem
    exact (h m hm).1
  rw [missingSpan]
  split
  · exact (by decide : Unescaped noneText)
  · exact unescaped_joinedNames hnames

theorem plainSpans_summaryDocument (h : ∀ s ∈ r.strings, Unescaped s) :
    PlainSpans r.summaryDocument := by
  obtain ⟨hdependencies, -, -, hmissing⟩ := forall_strings.mp h
  simp only [allDependencies, List.forall_mem_append] at hdependencies
  obtain ⟨⟨-, hproduction⟩, hdev⟩ := hdependencies
  have hcount : Unescaped ((r.dependencies.devList?.map fun dev =>
      ", " ++ toString dev.length ++ " development").getD "") := by
    cases r.dependencies.devList? <;> simp +decide
  have hunused {u : Unused}
      (h : ∀ d ∈ u.dependencies, Unescaped d.name ∧ Unescaped d.version) :
      Unescaped (unusedNamesSpan u).text :=
    unescaped_unusedSpan (unescaped_unused_names h)
  simp only [summaryDocument, plainSpans_append, plainSpans_getD]
  refine ⟨⟨⟨⟨⟨?_, ?_⟩, ?_⟩, ?_⟩, ?_⟩, ?_⟩
  · rw [plainSpans_entry (by decide)]
    simp only [Span.plain, plainSpans_cons, plainSpans_nil, unescaped_append, and_true]
    exact ⟨⟨unescaped_repr _, by decide⟩, hcount⟩
  · rw [plainSpans_entry (by decide)]
    simp +decide [Span.plain]
  · rw [plainSpans_entry (by decide)]
    simp [Span.plain]
  · rw [plainSpans_entry (by decide)]
    simp [hunused hproduction]
  · intro document hd
    obtain ⟨dev, hlist, rfl⟩ := Option.map_eq_some_iff.mp hd
    rw [hlist] at hdev
    rw [plainSpans_entry (by decide)]
    simp [hunused hdev]
  · rw [plainSpans_entry (by decide)]
    simp [unescaped_missingSpan hmissing]

theorem plainSpans_document (h : ∀ s ∈ r.strings, Unescaped s) (detail : Detail) :
    PlainSpans (r.document detail) := by
  cases detail with
  | full => exact plainSpans_fullDocument h
  | summary => exact plainSpans_summaryDocument h

theorem colors_document_ne_nil (r : Report) (detail : Detail) :
    colors (r.document detail) ≠ [] := by
  cases detail <;>
    simp [document, fullDocument, summaryDocument, heading, entry, line, colors]

/-- A coloured report is the plain one with codes put into it, and these come in pairs: one that
begins a colour and the one that ends it. -/
theorem text_without_codes {r : Report} (h : ∀ s ∈ r.strings, '\x1b' ∉ s.toList) (detail : Detail) :
    withoutCodes (r.text detail true) = r.text detail false ∧
      ∃ shown : List Color, shown ≠ [] ∧
        codesIn (r.text detail true) = shown.flatMap fun color => [.begins color, .ends] := by
  have hplain := plainSpans_document h detail
  exact ⟨withoutCodes_render hplain, colors (r.document detail), r.colors_document_ne_nil detail,
    codesIn_render hplain⟩

theorem text_without_codes_roi_ink :
    let roi : Dependency := ⟨"roi", "^0.15.0", .production⟩
    let ink : Dependency := ⟨"ink", "^4.6.3", .development⟩
    let r : Report :=
      ⟨.all [roi] [ink], [⟨"roi", "roi-require('roi')", "x.js", 4, 3⟩],
        [⟨"roi", "require('roi')", "x.js", 4⟩], ⟨.allBound, some (.unbound [ink])⟩,
        [⟨"ws", "p.js", 2⟩]⟩
    (∀ s ∈ r.strings, '\x1b' ∉ s.toList) ∧
      withoutCodes (r.text .summary true) = r.text .summary false ∧
      ∃ shown : List Color, shown ≠ [] ∧
        codesIn (r.text .summary true) = shown.flatMap fun color => [.begins color, .ends] := by
  intro roi ink r
  have hstrings : ∀ s ∈ r.strings, '\x1b' ∉ s.toList := by decide
  exact ⟨hstrings, text_without_codes hstrings .summary⟩

end Report

end ImportLedger
