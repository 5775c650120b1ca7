import Mathlib.Data.List.Sort
import ImportLedger.Proofs.Search
import ImportLedger.Proofs.StableSort
import ImportLedger.Statement.Binding
import ImportLedger.Statement.Reference

/-! The order of what is found on a line. Each search keeps the order of the text, and so do the
merged lists of bindings and of references. -/

namespace ImportLedger

section Keys

variable {α : Type} {f : α → Nat}

theorem sortBy_pairwise (l : List α) :
    (sortBy (fun a b => decide (f a ≤ f b)) l).Pairwise (f · ≤ f ·) := by
  have htotal (a b : α) : decide (f a ≤ f b) = true ∨ decide (f b ≤ f a) = true := by
    simp only [decide_eq_true_eq]
    omega
  have htrans (a b c : α) (hab : decide (f a ≤ f b) = true) (hbc : decide (f b ≤ f c) = true) :
      decide (f a ≤ f c) = true := by
    simp only [decide_eq_true_eq] at *
    omega
  exact (pairwise_sortBy htotal htrans l).imp of_decide_eq_true

theorem eq_of_key_eq {l : List α} (h : l.Pairwise (f · < f ·)) {a b : α} (ha : a ∈ l) (hb : b ∈ l)
    (he : f a = f b) : a = b := by
  have hnd : (l.map f).Nodup := List.pairwise_map.mpr (h.imp Nat.ne_of_lt)
  exact List.inj_on_of_nodup_map hnd ha hb he

theorem eq_of_perm_of_keys {l l' : List α} (hp : l.Perm l') (h : l.Pairwise (f · ≤ f ·))
    (h' : l'.Pairwise (f · < f ·)) : l = l' := by
  refine hp.eq_of_pairwise ?_ h (h'.imp Nat.le_of_lt)
  intro a b ha hb hab hba
  exact eq_of_key_eq h' (hp.mem_iff.mp ha) hb (Nat.le_antisymm hab hba)

/-- Elements with distinct keys have one order only. -/
theorem sortBy_eq_of_perm {l l' : List α} (hp : l.Perm l') (h' : l'.Pairwise (f · < f ·)) :
    sortBy (fun a b => decide (f a ≤ f b)) l = l' :=
  eq_of_perm_of_keys ((sortBy_perm _ l).trans hp) (sortBy_pairwise l) h'

/-- Elements with distinct keys are sorted strictly. -/
theorem sortBy_pairwise_lt {l : List α} (h : l.Pairwise (f · ≠ f ·)) :
    (sortBy (fun a b => decide (f a ≤ f b)) l).Pairwise (f · < f ·) := by
  have hne : (sortBy (fun a b => decide (f a ≤ f b)) l).Pairwise (f · ≠ f ·) :=
    ((sortBy_perm _ l).pairwise_iff fun hab => hab.symm).mpr h
  exact (sortBy_pairwise l).imp₂ (fun _ _ => Nat.lt_of_le_of_ne) hne

/-- Elements with distinct keys are sorted alike from wherever they come. -/
theorem sortBy_eq_sortBy {l l' : List α} (hp : l.Perm l') (h : l'.Pairwise (f · ≠ f ·)) :
    sortBy (fun a b => decide (f a ≤ f b)) l = sortBy (fun a b => decide (f a ≤ f b)) l' :=
  sortBy_eq_of_perm (hp.trans (sortBy_perm _ l').symm) (sortBy_pairwise_lt h)

/-- Lists of elements in strict order, each list with keys of its own, put together. -/
theorem pairwise_ne_flatMap {ι : Type} {g : ι → List α} {indices : List ι} (hi : indices.Nodup)
    (hg : ∀ i, (g i).Pairwise (f · < f ·))
    (hne : ∀ i j, i ≠ j → ∀ a ∈ g i, ∀ b ∈ g j, f a ≠ f b) :
    (indices.flatMap g).Pairwise (f · ≠ f ·) :=
  List.pairwise_flatMap.mpr ⟨fun i _ => (hg i).imp Nat.ne_of_lt, hi.imp fun hij => hne _ _ hij⟩

/-- Between two lists in strict order there is no difference of being a part and being a
subsequence. -/
theorem sublist_of_subset_of_keys {l l' : List α} (hs : l ⊆ l') (h : l.Pairwise (f · < f ·))
    (h' : l'.Pairwise (f · < f ·)) : l.Sublist l' := by
  have : Std.Antisymm (fun a b : α => f a < f b) :=
    ⟨fun _ _ hab hba => absurd hab (Nat.lt_asymm hba)⟩
  have hnd : l.Nodup := h.imp fun hab he => Nat.ne_of_lt hab (congrArg f he)
  exact List.sublist_of_subperm_of_pairwise (List.subperm_of_subset hnd hs) h h'

end Keys

namespace BindingKind

theorem kind_of_mem_statements {kind : BindingKind} {text : List Char} {b : BindingStatement}
    (h : b ∈ kind.statements text) : b.kind = kind := by
  obtain ⟨o, -, rfl⟩ := List.mem_map.mp h
  rfl

theorem statements_pairwise (kind : BindingKind) (text : List Char) :
    (kind.statements text).Pairwise (·.start < ·.start) :=
  List.pairwise_map.mpr (Occurrence.findAll_pairwise_start text)

/-- Statements of one kind end before the next one of the kind begins. -/
theorem statements_disjoint (kind : BindingKind) (text : List Char) :
    (kind.statements text).Pairwise (·.stop ≤ ·.start) :=
  List.pairwise_map.mpr (Occurrence.leftmost_pairwise 0 _)

end BindingKind

theorem mem_bindingStatements {text : String} {b : BindingStatement} :
    b ∈ bindingStatements text ↔ b ∈ b.kind.statements text.toList := by
  rw [bindingStatements, (sortBy_perm _ _).mem_iff, List.mem_append, List.mem_append]
  constructor
  · rintro ((h | h) | h) <;> rwa [BindingKind.kind_of_mem_statements h]
  · intro h
    cases hk : b.kind with
    | require => exact .inl (.inl (hk ▸ h))
    | dynamicImport => exact .inl (.inr (hk ▸ h))
    | importFrom => exact .inr (hk ▸ h)

theorem bindingStatements_pairwise (text : String) :
    (bindingStatements text).Pairwise (·.start ≤ ·.start) :=
  sortBy_pairwise _

/-- The merged list has the statements of a kind in the order in which they are found. -/
theorem filter_kind_bindingStatements (kind : BindingKind) (text : String) :
    (bindingStatements text).filter (·.kind == kind) = kind.statements text.toList := by
  have hself (k : BindingKind) (t : List Char) :
      (k.statements t).filter (·.kind == k) = k.statements t :=
    List.filter_eq_self.mpr fun b hb => by simp [BindingKind.kind_of_mem_statements hb]
  have hother {k k' : BindingKind} (hne : k' ≠ k) (t : List Char) :
      (k'.statements t).filter (·.kind == k) = [] :=
    List.filter_eq_nil_iff.mpr fun b hb => by simpa [BindingKind.kind_of_mem_statements hb]
  refine eq_of_perm_of_keys (f := (·.start)) ?_ ((bindingStatements_pairwise text).filter _)
    (kind.statements_pairwise text.toList)
  refine ((sortBy_perm _ _).filter _).trans ?_
  rw [List.filter_append, List.filter_append]
  cases kind with
  | require => simp [hself, hother]
  | dynamicImport => simp [hself, hother]
  | importFrom => simp [hself, hother]

/-- Where statements of one kind alone are found, the merged list is theirs. -/
theorem bindingStatements_of_kind {kind : BindingKind} {text : List Char}
    (h : ∀ k ≠ kind, k.statements text = []) :
    bindingStatements (String.ofList text) = kind.statements text := by
  have hself : (bindingStatements (String.ofList text)).filter (·.kind == kind) =
      bindingStatements (String.ofList text) := by
    refine List.filter_eq_self.mpr fun b hb => ?_
    have hmem := mem_bindingStatements.mp hb
    rw [String.toList_ofList] at hmem
    by_contra hne
    rw [h b.kind (by simpa using hne)] at hmem
    exact List.not_mem_nil hmem
  rw [← hself, filter_kind_bindingStatements, String.toList_ofList]

theorem requireCalls_pairwise (text : String) :
    (requireCalls text).Pairwise (·.start < ·.start) :=
  List.pairwise_map.mpr (Occurrence.findAll_pairwise_start text.toList)

end ImportLedger
