import ImportLedger.Proofs.KeyedGroups
import ImportLedger.Report.Text
import Mathlib.Algebra.BigOperators.Group.List.Basic
import Mathlib.Algebra.GroupWithZero.Nat

/-! The usage section of a report. Each dependency of the ledger has one heading with its total, and
the records below the headings are those of the ledger. -/

namespace ImportLedger

/-- Adds one more record to the totals: to the total of its dependency, or behind all others. -/
def tally (u : UsageRecord) : List (String × Nat) → List (String × Nat)
  | [] => [(u.name, u.occurrences)]
  | (name, total) :: rest =>
    if name = u.name then (name, total + u.occurrences) :: rest else (name, total) :: tally u rest

theorem sum_tally (u : UsageRecord) (totals : List (String × Nat)) :
    ((tally u totals).map (·.2)).sum = (totals.map (·.2)).sum + u.occurrences := by
  induction totals with
  | nil => simp [tally]
  | cons t totals ih =>
    obtain ⟨name, total⟩ := t
    by_cases h : name = u.name
    · simp [tally, h]
      omega
    · simp [tally, h, ih]
      omega

theorem tally_map {names : List String} (hd : names.Nodup) (u : UsageRecord) (total : String → Nat) :
    tally u (names.map fun name => (name, total name)) =
      (names.map fun name => (name, if name = u.name then total name + u.occurrences else total name)) ++
        if u.name ∈ names then [] else [(u.name, u.occurrences)] := by
  induction names with
  | nil => rfl
  | cons name names ih =>
    obtain ⟨hfresh, hd'⟩ := List.nodup_cons.mp hd
    by_cases h : name = u.name
    · have hrest : ∀ n ∈ names, n ≠ u.name := fun n hn he => hfresh ((h.trans he.symm) ▸ hn)
      have hkept : (names.map fun n => (n, if n = u.name then total n + u.occurrences else total n)) =
          names.map fun n => (n, total n) :=
        List.map_congr_left fun n hn => by rw [if_neg (hrest n hn)]
      simp [tally, h, hkept]
    · have hne : ¬ u.name = name := Ne.symm h
      simp [tally, h, hne, ih hd']

/-- The occurrences that a ledger counts for a dependency. -/
def totalOf (usage : List UsageRecord) (name : String) : Nat :=
  ((usage.filter (·.name == name)).map (·.occurrences)).sum

theorem totalOf_concat (usage : List UsageRecord) (u : UsageRecord) (name : String) :
    totalOf (usage ++ [u]) name =
      if name = u.name then totalOf usage name + u.occurrences else totalOf usage name := by
  by_cases h : name = u.name
  · simp [totalOf, h]
  · simp [totalOf, h, Ne.symm h]

def totals (usage : List UsageRecord) : List (String × Nat) :=
  (usage.map (·.name)).eraseDups.map fun name => (name, totalOf usage name)

theorem totals_concat (usage : List UsageRecord) (u : UsageRecord) :
    totals (usage ++ [u]) = tally u (totals usage) := by
  have hmem : u.name ∈ (usage.map (·.name)).eraseDups ↔ u.name ∈ usage.map (·.name) :=
    List.mem_eraseDups
  rw [totals, totals, tally_map (nodup_eraseDups _), List.map_append, List.map_singleton,
    eraseDups_concat]
  simp only [totalOf_concat, hmem]
  by_cases h : u.name ∈ usage.map (·.name)
  · simp only [if_pos h, List.append_nil]
  · have hnone : usage.filter (·.name == u.name) = [] :=
      List.filter_eq_nil_iff.mpr fun v hv => by
        simpa using fun he : v.name = u.name => h (he ▸ List.mem_map_of_mem hv)
    have hzero : totalOf usage u.name = 0 := by simp [totalOf, hnone]
    simp only [if_neg h, List.map_append, List.map_singleton, hzero, if_true, Nat.zero_add]

/-- The totals come about record by record. -/
theorem totals_eq_foldl (usage : List UsageRecord) :
    totals usage = usage.foldl (fun sums u => tally u sums) [] := by
  induction usage using List.reverseRecOn with
  | nil => rfl
  | append_singleton usage u ih => rw [totals_concat, ih, List.foldl_concat]

theorem sum_totals (usage : List UsageRecord) :
    ((totals usage).map (·.2)).sum = (usage.map (·.occurrences)).sum := by
  induction usage using List.reverseRecOn with
  | nil => rfl
  | append_singleton usage u ih =>
    rw [totals_concat, sum_tally, ih]
    simp

/-- A heading of the usage section and the records below it. -/
structure UsageGroup where
  name : String
  total : Nat
  records : List UsageRecord

def UsageRecord.lineText (u : UsageRecord) : String :=
  "    " ++ Report.place u.file u.line ++ " " ++ u.declaration ++ "\n"

def UsageGroup.text (colored : Bool) (g : UsageGroup) : String :=
  "  " ++ g.name ++ " " ++ (Span.badge g.total).render colored ++ "\n" ++
    String.join (g.records.map UsageRecord.lineText)

theorem render_append (colored : Bool) (a b : List Span) :
    render colored (a ++ b) = render colored a ++ render colored b := by
  simp [render]

theorem render_flatMap {α : Type} (colored : Bool) (f : α → List Span) (l : List α) :
    render colored (l.flatMap f) = String.join (l.map fun a => render colored (f a)) := by
  induction l with
  | nil => rfl
  | cons a l ih => rw [List.flatMap_cons, render_append, ih, List.map_cons, String.join_cons]

namespace Report

theorem occurrences_eq (r : Report) : r.occurrences = totals r.usage := rfl

def usageGroups (r : Report) : List UsageGroup :=
  r.occurrences.map fun (name, total) => ⟨name, total, r.usage.filter (·.name == name)⟩

/-- The full report up to the records of its usage section. -/
def beforeUsage (r : Report) : List Span :=
  heading "Dependencies" ++ dependencyLines r.dependencies ++ line [] ++ heading "Usage"

/-- The full report behind the records of its usage section. -/
def behindUsage (r : Report) : List Span :=
  line [] ++ heading "Requires" ++ r.requireLines ++ line [] ++
    heading "Unused dependencies" ++ r.unusedLines ++ line [] ++
    heading "Missing dependencies" ++ r.missingLines

theorem fullDocument_eq (r : Report) :
    r.fullDocument = r.beforeUsage ++ r.usageLines ++ r.behindUsage := by
  simp only [fullDocument, beforeUsage, behindUsage, List.append_assoc]

theorem render_line_plain (colored : Bool) (text : String) :
    render colored (line [Span.plain text]) = text ++ "\n" := by
  cases colored <;> simp [render, line, Span.plain, Span.render]

theorem render_group (colored : Bool) (g : UsageGroup) :
    render colored (line [Span.plain ("  " ++ g.name ++ " "), .badge g.total] ++
      g.records.flatMap fun u =>
        line [Span.plain ("    " ++ place u.file u.line ++ " " ++ u.declaration)]) =
      g.text colored := by
  have hheading : render colored (line [Span.plain ("  " ++ g.name ++ " "), .badge g.total]) =
      "  " ++ g.name ++ " " ++ (Span.badge g.total).render colored ++ "\n" := by
    cases colored <;> simp [render, line, Span.plain, Span.render, Span.badge, String.append_assoc]
  rw [render_append, render_flatMap, hheading]
  simp only [render_line_plain]
  rfl

theorem render_usageLines (r : Report) (colored : Bool) :
    render colored r.usageLines = (if r.usage = [] then "  None.\n" else "") ++
      String.join (r.usageGroups.map (UsageGroup.text colored)) := by
  rw [usageLines, usageGroups, List.map_map]
  by_cases h : r.usage = []
  · have hnone : r.occurrences = [] := by simp [occurrences, h]
    cases colored <;> simp [h, hnone, noneLine, line, render, Span.plain, Span.render, noneText]
  · rw [if_neg (by simpa using h), if_neg h, render_flatMap, String.empty_append]
    congr 1
    exact List.map_congr_left fun ⟨name, total⟩ _ => render_group colored ⟨name, total, _⟩

variable (r : Report)

theorem map_fst_occurrences : r.occurrences.map (·.1) = (r.usage.map (·.name)).eraseDups := by
  simp [occurrences, Function.comp_def]

theorem flatMap_records : r.usageGroups.flatMap (·.records) =
    (r.usage.map (·.name)).eraseDups.flatMap fun name => r.usage.filter (·.name == name) := by
  rw [usageGroups, occurrences, List.map_map, List.flatMap_map]
  rfl

theorem filter_records (name : String) :
    (r.usageGroups.flatMap (·.records)).filter (·.name == name) =
      r.usage.filter (·.name == name) := by
  rw [flatMap_records]
  by_cases h : name ∈ r.usage.map (·.name)
  · have hown (k : String) : ∀ u ∈ r.usage.filter (·.name == k), u.name = id k :=
      fun u hu => by simpa using (List.mem_filter.mp hu).2
    have hd : ((r.usage.map (·.name)).eraseDups.map id).Nodup := by
      rw [List.map_id]
      exact nodup_eraseDups _
    exact filter_flatMap_of_key hown hd (List.mem_eraseDups.mpr h)
  · have hnone {l : List UsageRecord} (hl : l ⊆ r.usage) : l.filter (·.name == name) = [] :=
      List.filter_eq_nil_iff.mpr fun u hu => by
        simpa using fun he : u.name = name => h (he ▸ List.mem_map_of_mem (hl hu))
    have hsubset : ((r.usage.map (·.name)).eraseDups.flatMap fun k =>
        r.usage.filter (·.name == k)) ⊆ r.usage := by
      intro u hu
      obtain ⟨k, -, hu⟩ := List.mem_flatMap.mp hu
      exact (List.mem_filter.mp hu).1
    rw [hnone hsubset, hnone (List.Subset.refl _)]

/-- What the ledger becomes in the totals and in the full text. -/
structure UsageGrouped : Prop where
  once : (r.occurrences.map (·.1)).Nodup
  mem_iff (name : String) : name ∈ r.occurrences.map (·.1) ↔ ∃ u ∈ r.usage, u.name = name
  /-- A dependency comes where its first record comes. -/
  ordered : (r.occurrences.map (·.1)).Pairwise fun a b =>
    (r.usage.map (·.name)).idxOf a < (r.usage.map (·.name)).idxOf b
  total_eq (name : String) (total : Nat) (h : (name, total) ∈ r.occurrences) :
    total = ((r.usage.filter (·.name == name)).map (·.occurrences)).sum
  sum_eq : (r.occurrences.map (·.2)).sum = (r.usage.map (·.occurrences)).sum
  counted : r.occurrences = r.usage.foldl (fun sums u => tally u sums) []
  /-- The section has a heading for each dependency, with its total and with records below it. -/
  headings : r.usageGroups.map (fun g => (g.name, g.total)) = r.occurrences
  text_eq (colored : Bool) : r.text .full colored =
    render colored r.beforeUsage ++ ((if r.usage = [] then "  None.\n" else "") ++
      String.join (r.usageGroups.map (UsageGroup.text colored))) ++ render colored r.behindUsage
  own : ∀ g ∈ r.usageGroups, ∀ u ∈ g.records, u.name = g.name
  perm : (r.usageGroups.flatMap (·.records)).Perm r.usage
  stable (name : String) : (r.usageGroups.flatMap (·.records)).filter (·.name == name) =
    r.usage.filter (·.name == name)

/-- The usage section loses no record and has none twice. -/
theorem usage_grouped : UsageGrouped r where
  once := by
    rw [map_fst_occurrences]
    exact nodup_eraseDups _
  mem_iff name := by
    rw [map_fst_occurrences, List.mem_eraseDups, List.mem_map]
  ordered := by
    rw [map_fst_occurrences]
    exact pairwise_idxOf_eraseDups _
  total_eq name total h := by
    obtain ⟨_, -, he⟩ := List.mem_map.mp h
    obtain ⟨rfl, rfl⟩ := Prod.mk.inj he
    rfl
  sum_eq := by rw [occurrences_eq, sum_totals]
  counted := by rw [occurrences_eq, totals_eq_foldl]
  headings := by
    rw [usageGroups, List.map_map]
    exact List.map_id _
  text_eq colored := by
    rw [text, document, fullDocument_eq, render_append, render_append, render_usageLines]
  own g hg u hu := by
    obtain ⟨⟨name, total⟩, -, rfl⟩ := List.mem_map.mp hg
    simpa using (List.mem_filter.mp hu).2
  perm := by
    rw [flatMap_records]
    exact flatMap_filter_perm (nodup_eraseDups _) fun u hu =>
      List.mem_eraseDups.mpr (List.mem_map_of_mem hu)
  stable := r.filter_records

end Report

end ImportLedger
