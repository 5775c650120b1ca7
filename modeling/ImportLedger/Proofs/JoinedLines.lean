import ImportLedger.Line
import Mathlib.Data.List.Basic

/-! Lines of a text, split and joined again. Joining undoes splitting for every text, and splitting
undoes joining for exactly those lists that are the lines of some text. -/

namespace ImportLedger

theorem notMem_of_mem_splitOn {α : Type} [BEq α] [LawfulBEq α] {x : α} {s t : List α}
    (h : s ∈ t.splitOn x) : x ∉ s := by
  induction t generalizing s with
  | nil => simp_all
  | cons c t ih =>
    rw [List.splitOn_cons_eq_if_modifyHead] at h
    split at h
    · rcases List.mem_cons.mp h with rfl | h
      · exact List.not_mem_nil
      · exact ih h
    · rename_i hc
      obtain ⟨u, rest, hu⟩ := List.exists_cons_of_ne_nil (List.splitOn_ne_nil x t)
      rw [hu, List.modifyHead_cons] at h
      rcases List.mem_cons.mp h with rfl | h
      · have hne : x ≠ c := fun e => hc (beq_iff_eq.mpr e.symm)
        have hrest : x ∉ u := ih (hu ▸ List.mem_cons_self)
        simp [hne, hrest]
      · exact ih (hu ▸ List.mem_cons_of_mem _ h)

namespace Line

theorem map_toList_numbered (n : Nat) (texts : List (List Char)) :
    (numbered n texts).map (·.text.toList) = texts := by
  induction texts generalizing n with
  | nil => rfl
  | cons t rest ih => simp [numbered, ih]

theorem numbered_map_text {lines : List Line} {n : Nat}
    (h : lines.map (·.number) = List.range' n lines.length) :
    numbered n (lines.map (·.text.toList)) = lines := by
  induction lines generalizing n with
  | nil => rfl
  | cons line lines ih =>
    rw [List.map_cons, List.length_cons, List.range'_succ] at h
    obtain ⟨hfirst, hrest⟩ := List.cons.inj h
    rw [List.map_cons, numbered, String.ofList_toList, ← hfirst, ih (hfirst ▸ hrest)]

theorem ofText_eq {text : String} (h : text.toList ≠ []) :
    ofText text = numbered 1 (text.toList.splitOn '\n') := by
  have hnonempty : text.toList.isEmpty = false := by simpa using h
  rw [ofText, hnonempty, if_neg (by decide)]

theorem toList_join (lines : List Line) :
    (join lines).toList = ['\n'].intercalate (lines.map (·.text.toList)) := by
  have hbreak : "\n".toList = ['\n'] := by decide
  rw [join, String.toList_intercalate, List.map_map, hbreak]
  rfl

theorem join_ofText (text : String) : join (ofText text) = text := by
  apply String.toList_injective
  by_cases h : text.toList = []
  · rw [ofText, h]
    rfl
  · rw [toList_join, ofText_eq h, map_toList_numbered, List.intercalate_splitOn]

/-- Whether lines are those of a text. The empty text has no line, so that a single empty line is
none of a text. -/
structure AreOfText (lines : List Line) : Prop where
  numbers : lines.map (·.number) = List.range' 1 lines.length
  newline_notMem : ∀ line ∈ lines, '\n' ∉ line.text.toList
  ne_single_empty : lines ≠ [⟨"", 1⟩]

theorem areOfText_ofText (text : String) : AreOfText (ofText text) := by
  by_cases h : text.toList = []
  · have hnone : ofText text = [] := by rw [ofText, h]; rfl
    rw [hnone]
    exact ⟨rfl, fun _ hl => absurd hl List.not_mem_nil, by simp⟩
  · have hlines := ofText_eq h
    have hnumbers := map_number_numbered 1 (text.toList.splitOn '\n')
    refine ⟨?_, fun line hl => ?_, fun hsingle => ?_⟩
    · have hlength := congrArg List.length hnumbers
      rw [List.length_map, List.length_range'] at hlength
      rw [hlines, hnumbers, hlength]
    · have htext : line.text.toList ∈ text.toList.splitOn '\n' := by
        rw [← map_toList_numbered 1 (text.toList.splitOn '\n'), ← hlines]
        exact List.mem_map_of_mem hl
      exact notMem_of_mem_splitOn htext
    · have hjoin := join_ofText text
      rw [hsingle] at hjoin
      exact h (by rw [← hjoin]; rfl)

theorem ofText_join {lines : List Line} (h : AreOfText lines) : ofText (join lines) = lines := by
  by_cases hempty : lines = []
  · rw [hempty]
    rfl
  · have hne : (join lines).toList ≠ [] := by
      rw [toList_join]
      intro hnil
      cases lines with
      | nil => exact hempty rfl
      | cons line lines =>
        cases lines with
        | nil =>
          -- One line whose text is empty.
          have hnumber := (List.cons.inj h.numbers).1
          have htext : line.text = "" := String.toList_injective (by simpa using hnil)
          refine h.ne_single_empty ?_
          rw [← htext, ← hnumber]
        | cons line' lines =>
          rw [List.map_cons, List.map_cons, List.intercalate_cons_cons] at hnil
          simp at hnil
    have hsplit : (join lines).toList.splitOn '\n' = lines.map (·.text.toList) := by
      rw [toList_join]
      refine List.splitOn_intercalate '\n' (fun s hs => ?_) (by simpa using hempty)
      obtain ⟨line, hline, rfl⟩ := List.mem_map.mp hs
      exact h.newline_notMem line hline
    rw [ofText_eq hne, hsplit, numbered_map_text h.numbers]

/-- Splitting a text into its lines and joining them again are inverse to one another: on every
text, and on every list of lines that a text can have. -/
theorem split_and_join :
    (∀ text : String, join (ofText text) = text) ∧
      ∀ lines : List Line, ofText (join lines) = lines ↔
        lines.map (·.number) = List.range' 1 lines.length ∧
          (∀ line ∈ lines, '\n' ∉ line.text.toList) ∧ lines ≠ [⟨"", 1⟩] := by
  refine ⟨join_ofText, fun lines => ⟨fun h => ?_, fun ⟨hnumbers, hnewline, hne⟩ => ?_⟩⟩
  · have hh := areOfText_ofText (join lines)
    rw [h] at hh
    exact ⟨hh.numbers, hh.newline_notMem, hh.ne_single_empty⟩
  · exact ofText_join ⟨hnumbers, hnewline, hne⟩

example : ofText "a\r\n\n" = [⟨"a\r", 1⟩, ⟨"", 2⟩, ⟨"", 3⟩] ∧ ofText (join [⟨"", 1⟩]) = [] := by
  decide +kernel

end Line

end ImportLedger
