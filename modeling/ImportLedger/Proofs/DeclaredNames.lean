import ImportLedger.Proofs.Records

/-! The finders see a manifest only through the names that it declares. Fewer
names keep a part of the declarations, usage records and require records, and
more names keep a part of the missing records. -/

namespace ImportLedger

theorem filterMap_named_restrict {α β : Type} {narrow wide : α → Option String}
    {make : α → String → β} {name : β → String} {p : String → Bool}
    (hname : ∀ a n, name (make a n) = n) (h : ∀ a, narrow a = (wide a).filter p) (l : List α) :
    l.filterMap (fun a => (narrow a).map (make a)) =
      (l.filterMap fun a => (wide a).map (make a)).filter fun b => p (name b) := by
  rw [List.filter_filterMap]
  refine congrArg (List.filterMap · l) (funext fun a => ?_)
  rw [h a]
  cases wide a with
  | none => rfl
  | some n => cases hp : p n <;> simp [Option.filter, hname, hp]

theorem declaredPackage?_restrict {few many : DependencySets}
    (h : ∀ name, few.contains name = true → many.contains name = true) (specifier : String) :
    declaredPackage? few.toList specifier =
      (declaredPackage? many.toList specifier).filter few.contains := by
  have hmany : ∀ name, (few.contains name && many.contains name) = few.contains name := by
    intro name
    cases hf : few.contains name with
    | false => rfl
    | true => simp [h name hf]
  unfold declaredPackage?
  rw [Option.filter_filter]
  refine congrArg (Option.filter · _) (funext fun name => ?_)
  exact (Bool.and_comm _ _ |>.trans (hmany name)).symm

theorem missingPackage?_restrict {few many : DependencySets}
    (h : ∀ name, few.contains name = true → many.contains name = true) (specifier : String) :
    missingPackage? many specifier =
      (missingPackage? few specifier).filter fun name => !many.contains name := by
  unfold missingPackage?
  rw [Option.filter_filter]
  refine congrArg (Option.filter · _) (funext fun name => ?_)
  cases hf : few.contains name with
  | false => simp
  | true => simp [h name hf]

theorem findDeclarations_restrict {few many : DependencySets}
    (h : ∀ name, few.contains name = true → many.contains name = true)
    (lines : List Line) (file : String) :
    findDeclarations lines file few.toList =
      (findDeclarations lines file many.toList).filter (few.contains ·.name) := by
  rw [findDeclarations, findDeclarations, List.filter_flatMap]
  refine congrArg (lines.flatMap ·) (funext fun line => ?_)
  exact filterMap_named_restrict (fun _ _ => rfl)
    (fun s : BindingStatement => declaredPackage?_restrict h s.specifier) _

theorem findRequires_restrict {few many : DependencySets}
    (h : ∀ name, few.contains name = true → many.contains name = true)
    (lines : List Line) (file : String) :
    findRequires lines file few.toList =
      (findRequires lines file many.toList).filter (few.contains ·.name) := by
  rw [findRequires, findRequires, List.filter_flatMap]
  refine congrArg (lines.flatMap ·) (funext fun line => ?_)
  exact filterMap_named_restrict (fun _ _ => rfl)
    (fun call : RequireCall => declaredPackage?_restrict h call.specifier) _

theorem findMissing_restrict {few many : DependencySets}
    (h : ∀ name, few.contains name = true → many.contains name = true)
    (lines : List Line) (file : String) :
    findMissing lines file many =
      (findMissing lines file few).filter fun r => !many.contains r.name := by
  rw [findMissing, findMissing, List.filter_flatMap]
  refine congrArg (lines.flatMap ·) (funext fun line => ?_)
  exact filterMap_named_restrict (p := fun name => !many.contains name) (fun _ _ => rfl)
    (fun r : ModuleReference => missingPackage?_restrict h r.specifier) _

/-- The count of a record depends on its own declaration and the lines alone. -/
theorem usageRecords_filter (p : String → Bool) (lines : List Line) (label : String)
    (declarations : List Declaration) :
    usageRecords lines label (declarations.filter (p ·.name)) =
      (usageRecords lines label declarations).filter (p ·.name) := by
  rw [usageRecords, usageRecords, List.filter_map]
  rfl

theorem usageRecords_restrict {few many : DependencySets}
    (h : ∀ name, few.contains name = true → many.contains name = true)
    (lines : List Line) (file label : String) :
    usageRecords lines label (findDeclarations lines file few.toList) =
      (usageRecords lines label (findDeclarations lines file many.toList)).filter
        (few.contains ·.name) := by
  rw [findDeclarations_restrict h, usageRecords_filter]

theorem findMissing_of_added {few many : DependencySets} {added : String}
    (h : ∀ name, many.contains name = (few.contains name || name == added))
    (lines : List Line) (file : String) :
    findMissing lines file many = (findMissing lines file few).filter (·.name != added) := by
  have hsub : ∀ name, few.contains name = true → many.contains name = true := by
    intro name hf
    simp [h name, hf]
  rw [findMissing_restrict hsub lines file]
  refine List.filter_congr fun r hr => ?_
  obtain ⟨_, _, _, _, _, _, hf, _⟩ := mem_findMissing.mp hr
  rw [h r.name, hf, Bool.false_or, bne]

/-- The restriction law. Over fewer declared names the finders of declarations,
usages and `require` calls yield what they yield over more names, less the
records of the other names; the finder of missing packages yields more. Names
are all that counts: sets that declare the same names yield the same records,
and to declare one more name removes the missing records of that name alone. -/
theorem finders_restrict {few many : DependencySets}
    (h : ∀ name, few.contains name = true → many.contains name = true)
    (lines : List Line) (file label : String) :
    findDeclarations lines file few.toList =
      (findDeclarations lines file many.toList).filter (few.contains ·.name) ∧
    findRequires lines file few.toList =
      (findRequires lines file many.toList).filter (few.contains ·.name) ∧
    usageRecords lines label (findDeclarations lines file few.toList) =
      (usageRecords lines label (findDeclarations lines file many.toList)).filter
        (few.contains ·.name) ∧
    findMissing lines file many =
      (findMissing lines file few).filter (fun r => !many.contains r.name) ∧
    ((∀ name, many.contains name = true → few.contains name = true) →
      findDeclarations lines file few.toList = findDeclarations lines file many.toList ∧
      findRequires lines file few.toList = findRequires lines file many.toList ∧
      usageRecords lines label (findDeclarations lines file few.toList) =
        usageRecords lines label (findDeclarations lines file many.toList) ∧
      findMissing lines file few = findMissing lines file many) ∧
    ∀ added, (∀ name, many.contains name = (few.contains name || name == added)) →
      findMissing lines file many = (findMissing lines file few).filter (·.name != added) := by
  refine ⟨findDeclarations_restrict h lines file, findRequires_restrict h lines file,
    usageRecords_restrict h lines file label, findMissing_restrict h lines file, ?_,
    fun _ ha => findMissing_of_added ha lines file⟩
  intro h'
  have he : few.contains = many.contains := funext fun name =>
    Bool.eq_iff_iff.mpr ⟨h name, h' name⟩
  have hd : findDeclarations lines file few.toList = findDeclarations lines file many.toList := by
    rw [findDeclarations_restrict h, he, ← findDeclarations_restrict fun _ hn => hn]
  refine ⟨hd, ?_, congrArg _ hd, ?_⟩
  · rw [findRequires_restrict h, he, ← findRequires_restrict fun _ hn => hn]
  · rw [findMissing_restrict h, ← he, ← findMissing_restrict fun _ hn => hn]

theorem finders_restrict_roi_tape :
    let few : DependencySets := .production [⟨"roi", "0.15.0", .production⟩]
    let many : DependencySets :=
      .all [⟨"roi", "0.15.0", .production⟩] [⟨"tape", "4.6.3", .development⟩]
    let lines : List Line :=
      [⟨"const roi = require('roi'); require('tape'); require('express')", 1⟩]
    findRequires lines "x.js" few.toList = [⟨"roi", "require('roi')", "x.js", 1⟩] ∧
    findRequires lines "x.js" few.toList =
      (findRequires lines "x.js" many.toList).filter (few.contains ·.name) ∧
    findMissing lines "x.js" many = [⟨"express", "x.js", 1⟩] ∧
    findMissing lines "x.js" many = (findMissing lines "x.js" few).filter (·.name != "tape") := by
  intro few many lines
  have hsub : ∀ name, few.contains name = true → many.contains name = true := by
    intro name hf
    simp_all [few, many, DependencySets.contains, DependencySets.toList,
      DependencySets.productionList, DependencySets.devList?]
  have hadd : ∀ name, many.contains name = (few.contains name || name == "tape") := by
    intro name
    simp [few, many, DependencySets.contains, DependencySets.toList,
      DependencySets.productionList, DependencySets.devList?, BEq.comm]
  have hh := finders_restrict hsub lines "x.js" "x.js"
  exact ⟨by decide +kernel, hh.2.1, by decide +kernel, hh.2.2.2.2.2 "tape" hadd⟩

end ImportLedger
