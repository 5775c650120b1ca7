import ImportLedger.Order

/-! Sorting by a total order. The result is sorted, a part of a list keeps its place in the
result, and sorting does not see what the order does not compare. -/

namespace ImportLedger

theorem sortBy_map {α β : Type} {le : α → α → Bool} {le' : β → β → Bool} {f : α → β}
    (hf : ∀ a b, le' (f a) (f b) = le a b) (l : List α) :
    sortBy le' (l.map f) = (sortBy le l).map f := by
  have hinsert (a : α) (l : List α) :
      insertBy le' (f a) (l.map f) = (insertBy le a l).map f := by
    induction l with
    | nil => rfl
    | cons b l ih =>
      by_cases hab : le a b = true
      · simp [insertBy, hf, hab]
      · simp [insertBy, hf, hab, ih]
  induction l with
  | nil => rfl
  | cons a l ih =>
    change insertBy le' (f a) (sortBy le' (l.map f)) = (insertBy le a (sortBy le l)).map f
    rw [ih, hinsert]

section

variable {α : Type} {le : α → α → Bool}

theorem sublist_insertBy (a : α) (l : List α) : l.Sublist (insertBy le a l) := by
  induction l with
  | nil => exact List.nil_sublist _
  | cons b l ih =>
    by_cases hab : le a b = true
    · simp [insertBy, hab]
    · simpa [insertBy, hab] using ih

theorem insertBy_eq_cons {a : α} {l : List α} (h : ∀ b ∈ l, le a b = true) :
    insertBy le a l = a :: l := by
  cases l with
  | nil => rfl
  | cons b l => simp [insertBy, h b (by simp)]

theorem pairwise_insertBy (htotal : ∀ a b, le a b = true ∨ le b a = true)
    (htrans : ∀ a b c, le a b = true → le b c = true → le a c = true) (a : α) {l : List α}
    (hs : l.Pairwise (le · · = true)) : (insertBy le a l).Pairwise (le · · = true) := by
  induction l with
  | nil => exact List.pairwise_singleton _ a
  | cons b l ih =>
    obtain ⟨hb, hl⟩ := List.pairwise_cons.mp hs
    by_cases hab : le a b = true
    · rw [insertBy, if_pos hab]
      refine List.pairwise_cons.mpr ⟨?_, hs⟩
      intro c hc
      rcases List.mem_cons.mp hc with rfl | hc
      · exact hab
      · exact htrans a b c hab (hb c hc)
    · rw [insertBy, if_neg hab]
      refine List.pairwise_cons.mpr ⟨?_, ih hl⟩
      intro c hc
      rcases List.mem_cons.mp ((insertBy_perm le a l).mem_iff.mp hc) with rfl | hc
      · exact (htotal c b).resolve_left hab
      · exact hb c hc

theorem pairwise_sortBy (htotal : ∀ a b, le a b = true ∨ le b a = true)
    (htrans : ∀ a b c, le a b = true → le b c = true → le a c = true) (l : List α) :
    (sortBy le l).Pairwise (le · · = true) := by
  induction l with
  | nil => exact .nil
  | cons a l ih => exact pairwise_insertBy htotal htrans a ih

theorem insertBy_sublist (htrans : ∀ a b c, le a b = true → le b c = true → le a c = true)
    (a : α) {l' l : List α} (h : l'.Sublist l) (hs : l.Pairwise (le · · = true)) :
    (insertBy le a l').Sublist (insertBy le a l) := by
  induction h with
  | slnil => exact .refl _
  | @cons l' l b h ih =>
    obtain ⟨hb, hl⟩ := List.pairwise_cons.mp hs
    by_cases hab : le a b = true
    · have hl' : ∀ c ∈ l', le a c = true := fun c hc => htrans a b c hab (hb c (h.subset hc))
      rw [insertBy_eq_cons hl', insertBy, if_pos hab]
      exact (h.cons b).cons_cons a
    · rw [insertBy, if_neg hab]
      exact (ih hl).cons b
  | @cons_cons l' l b h ih =>
    have hl := (List.pairwise_cons.mp hs).2
    by_cases hab : le a b = true
    · simpa [insertBy, hab] using h
    · simpa [insertBy, hab] using ih hl

theorem sortBy_sublist (htotal : ∀ a b, le a b = true ∨ le b a = true)
    (htrans : ∀ a b c, le a b = true → le b c = true → le a c = true) {l' l : List α}
    (h : l'.Sublist l) : (sortBy le l').Sublist (sortBy le l) := by
  induction h with
  | slnil => exact .refl _
  | @cons l' l b h ih => exact ih.trans (sublist_insertBy b _)
  | @cons_cons l' l b h ih => exact insertBy_sublist htrans b ih (pairwise_sortBy htotal htrans l)

end

end ImportLedger
