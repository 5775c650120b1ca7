import ImportLedger.Proofs.JsonText
import ImportLedger.Report.Basic
import Mathlib.Data.List.Basic

/-! A report can be told from its JSON text: sets of either shape, the text that stands for an
empty list, an absent part and empty lists are all kept apart. -/

namespace ImportLedger

theorem DependencyKind.name_injective : Function.Injective name := by
  intro k k' h
  cases k <;> cases k' <;> first | rfl | exact absurd h (by decide)

theorem Dependency.toJson_injective : Function.Injective toJson := by
  intro d d' h
  simp only [toJson, Json.object.injEq, List.cons.injEq, Prod.mk.injEq, Json.string.injEq, true_and,
    and_true] at h
  obtain ⟨hname, hversion, hkind⟩ := h
  cases d
  cases d'
  rw [Dependency.mk.injEq]
  exact ⟨hname, hversion, DependencyKind.name_injective hkind⟩

theorem array_map_injective {α : Type} {f : α → Json} (hf : Function.Injective f) :
    Function.Injective fun l : List α => Json.array (l.map f) := by
  intro l l' h
  exact List.map_injective_iff.mpr hf (Json.array.inj h)

theorem DependencySets.toJson_injective : Function.Injective toJson := by
  intro s s' h
  have hlist {l l' : List Dependency}
      (h : Json.array (l.map Dependency.toJson) = Json.array (l'.map Dependency.toJson)) : l = l' :=
    array_map_injective Dependency.toJson_injective h
  cases s with
  | production list =>
    cases s' with
    | production list' =>
      simp only [toJson, Json.object.injEq, List.cons.injEq, Prod.mk.injEq, true_and,
        and_true] at h
      rw [hlist h]
    | all list' dev' => simp [toJson] at h
  | all list dev =>
    cases s' with
    | production list' => simp [toJson] at h
    | all list' dev' =>
      simp only [toJson, Json.object.injEq, List.cons.injEq, Prod.mk.injEq, true_and,
        and_true] at h
      rw [hlist h.1, hlist h.2]

theorem UsageRecord.toJson_injective : Function.Injective toJson := by
  intro r r' h
  cases r
  cases r'
  simpa [toJson, Int.natCast_inj] using h

theorem RequireRecord.toJson_injective : Function.Injective toJson := by
  intro r r' h
  cases r
  cases r'
  simpa [toJson, Int.natCast_inj] using h

theorem MissingRecord.toJson_injective : Function.Injective toJson := by
  intro r r' h
  cases r
  cases r'
  simpa [toJson, Int.natCast_inj] using h

theorem Unused.toJson_injective : Function.Injective toJson := by
  intro u u' h
  cases u with
  | allBound =>
    cases u' with
    | allBound => rfl
    | unbound list => simp [toJson] at h
  | unbound list =>
    cases u' with
    | allBound => simp [toJson] at h
    | unbound list' =>
      exact congrArg unbound (array_map_injective Dependency.toJson_injective h)

theorem UnusedDependencies.toJson_injective : Function.Injective toJson := by
  intro u u' h
  obtain ⟨production, dev⟩ := u
  obtain ⟨production', dev'⟩ := u'
  have hinj {a b : Unused} : a.toJson = b.toJson ↔ a = b := Unused.toJson_injective.eq_iff
  cases dev <;> cases dev' <;> simp [toJson, hinj] at h ⊢ <;> exact h

theorem Report.toJson_injective : Function.Injective toJson := by
  intro r r' h
  simp only [toJson, Json.object.injEq, List.cons.injEq, Prod.mk.injEq, true_and, and_true] at h
  obtain ⟨hsets, husage, hrequires, hunused, hmissing⟩ := h
  cases r
  cases r'
  simp only [Report.mk.injEq]
  exact ⟨DependencySets.toJson_injective hsets,
    array_map_injective UsageRecord.toJson_injective husage,
    array_map_injective RequireRecord.toJson_injective hrequires,
    UnusedDependencies.toJson_injective hunused,
    array_map_injective MissingRecord.toJson_injective hmissing⟩

theorem isExact_array_map {α : Type} {f : α → Json} (hf : ∀ a, (f a).isExact = true) (l : List α) :
    (Json.array (l.map f)).isExact = true := by
  refine Json.isExact_array.mpr fun v hv => ?_
  obtain ⟨a, -, rfl⟩ := List.mem_map.mp hv
  exact hf a

theorem Report.isExact_toJson (r : Report) : r.toJson.isExact = true := by
  have hdependency (d : Dependency) : d.toJson.isExact = true := rfl
  have hsets (s : DependencySets) : s.toJson.isExact = true := by
    cases s <;>
      simp [DependencySets.toJson, Json.isExact_object, isExact_array_map hdependency]
  have hunused (u : Unused) : u.toJson.isExact = true := by
    cases u with
    | allBound => rfl
    | unbound list => exact isExact_array_map hdependency list
  have hboth : r.unused.toJson.isExact = true := by
    cases h : r.unused.dev <;>
      simp [UnusedDependencies.toJson, Json.isExact_object, hunused, h]
  simp [toJson, Json.isExact_object, hsets, hboth,
    isExact_array_map (fun _ => rfl : ∀ u : UsageRecord, u.toJson.isExact = true),
    isExact_array_map (fun _ => rfl : ∀ u : RequireRecord, u.toJson.isExact = true),
    isExact_array_map (fun _ => rfl : ∀ u : MissingRecord, u.toJson.isExact = true)]

/-- Reports with the same JSON text are the same. -/
theorem Report.jsonText_injective : Function.Injective Report.jsonText := by
  intro r r' h
  exact toJson_injective (Json.eq_of_pretty_eq r.isExact_toJson r'.isExact_toJson h)

theorem Report.jsonText_allBound_ne_unbound_nil :
    Report.jsonText ⟨.production [], [], [], ⟨.allBound, none⟩, []⟩ ≠
      Report.jsonText ⟨.production [], [], [], ⟨.unbound [], none⟩, []⟩ :=
  fun h => absurd (Report.jsonText_injective h) (by decide)

end ImportLedger
