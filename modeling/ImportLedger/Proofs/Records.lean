import ImportLedger.Finder.Missing
import ImportLedger.Finder.Require
import ImportLedger.Finder.Usage

/-! What stands in the records of the finders: the line that a record is for,
the statement on it, and the package that the statement names. -/

namespace ImportLedger

theorem DependencySets.contains_iff {sets : DependencySets} {name : String} :
    sets.contains name = true ↔ name ∈ sets.toList.map (·.name) := by
  simp [contains]

theorem declaredPackage?_eq_some {dependencies : List Dependency} {specifier name : String} :
    declaredPackage? dependencies specifier = some name ↔
      packageName specifier = some name ∧ name ∈ dependencies.map (·.name) := by
  rw [declaredPackage?, Option.filter_eq_some_iff]
  simp

theorem missingPackage?_eq_some {sets : DependencySets} {specifier name : String} :
    missingPackage? sets specifier = some name ↔
      packageName specifier = some name ∧ isBuiltin name = false ∧ sets.contains name = false := by
  rw [missingPackage?, Option.filter_eq_some_iff]
  simp

theorem mem_findDeclarations {lines : List Line} {file : String} {dependencies : List Dependency}
    {d : Declaration} :
    d ∈ findDeclarations lines file dependencies ↔
      ∃ line ∈ lines, ∃ s ∈ bindingStatements line.text,
        packageName s.specifier = some d.name ∧ d.name ∈ dependencies.map (·.name) ∧
        d = { name := d.name, binding := s.binding, reference := s.reference, kind := s.kind,
              file, line := line.number, start := s.start, stop := s.stop } := by
  simp only [findDeclarations, List.mem_flatMap, Declaration.onLine, List.mem_filterMap,
    Option.map_eq_some_iff, declaredPackage?_eq_some]
  constructor
  · rintro ⟨line, hl, s, hs, name, ⟨hp, hn⟩, rfl⟩
    exact ⟨line, hl, s, hs, hp, hn, rfl⟩
  · rintro ⟨line, hl, s, hs, hp, hn, he⟩
    exact ⟨line, hl, s, hs, d.name, ⟨hp, hn⟩, he.symm⟩

theorem mem_findRequires {lines : List Line} {file : String} {dependencies : List Dependency}
    {r : RequireRecord} :
    r ∈ findRequires lines file dependencies ↔
      ∃ line ∈ lines, ∃ call ∈ requireCalls line.text,
        packageName call.specifier = some r.name ∧ r.name ∈ dependencies.map (·.name) ∧
        r = { name := r.name, statement := call.text, file, line := line.number } := by
  simp only [findRequires, List.mem_flatMap, RequireRecord.onLine, List.mem_filterMap,
    Option.map_eq_some_iff, declaredPackage?_eq_some]
  constructor
  · rintro ⟨line, hl, call, hc, name, ⟨hp, hn⟩, rfl⟩
    exact ⟨line, hl, call, hc, hp, hn, rfl⟩
  · rintro ⟨line, hl, call, hc, hp, hn, he⟩
    exact ⟨line, hl, call, hc, r.name, ⟨hp, hn⟩, he.symm⟩

theorem mem_findMissing {lines : List Line} {file : String} {sets : DependencySets}
    {r : MissingRecord} :
    r ∈ findMissing lines file sets ↔
      ∃ line ∈ lines, ∃ reference ∈ moduleReferences line.text,
        packageName reference.specifier = some r.name ∧ isBuiltin r.name = false ∧
        sets.contains r.name = false ∧ r = { name := r.name, file, line := line.number } := by
  simp only [findMissing, List.mem_flatMap, MissingRecord.onLine, List.mem_filterMap,
    Option.map_eq_some_iff, missingPackage?_eq_some]
  constructor
  · rintro ⟨line, hl, reference, hr, name, ⟨hp, hb, hc⟩, rfl⟩
    exact ⟨line, hl, reference, hr, hp, hb, hc, rfl⟩
  · rintro ⟨line, hl, reference, hr, hp, hb, hc, he⟩
    exact ⟨line, hl, reference, hr, r.name, ⟨hp, hb, hc⟩, he.symm⟩

theorem map_name_usageRecords (lines : List Line) (label : String)
    (declarations : List Declaration) :
    (usageRecords lines label declarations).map (·.name) = declarations.map (·.name) := by
  rw [usageRecords, List.map_map]
  rfl

end ImportLedger
