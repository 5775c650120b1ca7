/-! Sets of characters written as ascending lists of code point ranges. -/

namespace ImportLedger.Text

/-- Looks a code point up in ranges that ascend and do not touch, so the search may stop at the
first range that begins after it. -/
def inRanges : List (Nat × Nat) → Nat → Bool
  | [], _ => false
  | (low, high) :: rest, n =>
    if n < low then false else if n ≤ high then true else inRanges rest n

theorem exists_range_of_inRanges {ranges : List (Nat × Nat)} {n : Nat}
    (h : inRanges ranges n = true) : ∃ r ∈ ranges, r.1 ≤ n ∧ n ≤ r.2 := by
  induction ranges with
  | nil => simp [inRanges] at h
  | cons r rest ih =>
    obtain ⟨low, high⟩ := r
    by_cases below : n < low
    · simp [inRanges, below] at h
    · by_cases inside : n ≤ high
      · exact ⟨(low, high), by simp, by simp; omega, inside⟩
      · obtain ⟨r, member, bounds⟩ := ih (by simpa [inRanges, below, inside] using h)
        exact ⟨r, List.mem_cons_of_mem _ member, bounds⟩

end ImportLedger.Text
