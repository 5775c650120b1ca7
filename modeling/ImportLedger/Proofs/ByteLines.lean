import ImportLedger.Disk.Source
import ImportLedger.Proofs.JoinedLines
import ImportLedger.Proofs.LossyDecoding

/-! Lines of a file whose bytes need not be text. The bytes of a newline are part of no other
character and of no beginning of one, so every line is decoded on its own. -/

namespace ImportLedger

open Text.Utf8

namespace Text.Utf8

def newline : UInt8 := 0x0a

theorem encodeChar_newline : String.utf8EncodeChar '\n' = [newline] := by decide

theorem eq_newline_of_mem {c : Char} (h : newline ∈ String.utf8EncodeChar c) : c = '\n' := by
  have hbyte : newline = UInt8.ofNat '\n'.toNat := by decide
  rw [hbyte] at h
  exact ((mem_encodeChar_of_ascii (by decide)).mp h).symm

/-- What could begin a character does not reach over a newline. -/
theorem Initial.prefix_of_newline {p s t : Bytes} (hp : Initial p) (hs : s ≠ [])
    (h : p <+: s ++ newline :: t) : p <+: s := by
  by_cases hlen : p.length ≤ s.length
  · exact List.prefix_of_prefix_length_le h (List.prefix_append s _) hlen
  · obtain ⟨u, rfl⟩ := List.prefix_of_prefix_length_le (List.prefix_append s _) h (by omega)
    have hu := (List.prefix_append_right_inj s).mp h
    obtain ⟨c, hc⟩ := hp
    cases u with
    | nil => simp at hlen
    | cons b u =>
      obtain ⟨rfl, -⟩ := List.cons_prefix_cons.mp hu
      obtain rfl := eq_newline_of_mem (hc.subset (by simp))
      have hone := hc.length_le
      have hpos := List.length_pos_iff.mpr hs
      rw [encodeChar_newline, List.length_append, List.length_cons, List.length_singleton] at hone
      omega

theorem Decodes.append_newline {s t : Bytes} {u v : List Char} (hs : Decodes s u)
    (ht : Decodes t v) : Decodes (s ++ newline :: t) (u ++ '\n' :: v) := by
  induction hs with
  | nil =>
    have h := Decodes.char (c := '\n') ht
    rwa [encodeChar_newline] at h
  | char _ ih =>
    rw [List.append_assoc]
    exact .char ih
  | @replaced p rest s hp hbegins hnone hlongest _ ih =>
    have hne : p ++ rest ≠ [] := List.append_ne_nil_of_left_ne_nil hp rest
    rw [List.append_assoc]
    refine .replaced hp hbegins (fun c hc => ?_) (fun q hq hinitial => ?_) ih
    · rw [← List.append_assoc] at hc
      exact hnone c (Initial.prefix_of_newline ⟨c, List.prefix_rfl⟩ hne hc)
    · rw [← List.append_assoc] at hq
      exact hlongest q (hinitial.prefix_of_newline hne hq) hinitial

theorem Decodes.newline_notMem {s : Bytes} {u : List Char} (h : Decodes s u)
    (hs : newline ∉ s) : '\n' ∉ u := by
  induction h with
  | nil => exact List.not_mem_nil
  | @char c rest u _ ih =>
    rw [List.mem_append, not_or] at hs
    refine List.not_mem_cons_of_ne_of_not_mem (fun hc => ?_) (ih hs.2)
    rw [← hc, encodeChar_newline] at hs
    exact hs.1 List.mem_cons_self
  | replaced _ _ _ _ _ ih =>
    rw [List.mem_append, not_or] at hs
    exact List.not_mem_cons_of_ne_of_not_mem (by decide) (ih hs.2)

theorem decodeLossy_ne_nil {s : Bytes} (h : s ≠ []) : decodeLossy s ≠ [] := by
  intro hnil
  have hs := decodes_decodeLossy s
  rw [hnil] at hs
  cases hs
  exact h rfl

theorem decodeLossy_intercalate {segments : List Bytes} (hne : segments ≠ []) :
    decodeLossy ([newline].intercalate segments) =
      ['\n'].intercalate (segments.map decodeLossy) := by
  induction segments with
  | nil => exact absurd rfl hne
  | cons s segments ih =>
    cases segments with
    | nil => simp
    | cons t segments =>
      have hrest := decodes_iff.mpr (ih (by simp))
      have hall := decodes_iff.mp ((decodes_decodeLossy s).append_newline hrest)
      rw [List.intercalate_cons_cons, List.map_cons, List.map_cons, List.intercalate_cons_cons]
      simpa using hall

end Text.Utf8

theorem length_splitOn {α : Type} [BEq α] [LawfulBEq α] (x : α) (s : List α) :
    (s.splitOn x).length = s.count x + 1 := by
  induction s with
  | nil => simp
  | cons c s ih =>
    rw [List.splitOn_cons_eq_if_modifyHead, List.count_cons]
    split <;> simp [ih]

theorem linesOfBytes_intercalate {segments : List Bytes}
    (hnone : ∀ s ∈ segments, newline ∉ s) (hne : [newline].intercalate segments ≠ []) :
    linesOfBytes ([newline].intercalate segments) =
      Line.numbered 1 (segments.map decodeLossy) := by
  have hsegments : segments ≠ [] := fun h => hne (by rw [h]; rfl)
  have htext := decodeLossy_ne_nil hne
  rw [linesOfBytes, Line.ofText_eq (by rwa [String.toList_ofList]), String.toList_ofList,
    decodeLossy_intercalate hsegments, List.splitOn_intercalate]
  · intro u hu
    obtain ⟨s, hs, rfl⟩ := List.mem_map.mp hu
    exact (decodes_decodeLossy s).newline_notMem (hnone s hs)
  · simpa using hsegments

theorem linesOfBytes_eq {b : Bytes} (h : b ≠ []) :
    linesOfBytes b = Line.numbered 1 ((b.splitOn newline).map decodeLossy) := by
  have hb : [newline].intercalate (b.splitOn newline) = b := List.intercalate_splitOn newline
  have hh := linesOfBytes_intercalate (fun _ hs => notMem_of_mem_splitOn hs) (by rwa [hb])
  rwa [hb] at hh

theorem Line.numbered_set (n i : Nat) (texts : List (List Char)) (t : List Char) :
    numbered n (texts.set i t) = (numbered n texts).set i ⟨String.ofList t, n + i⟩ := by
  induction texts generalizing n i with
  | nil => rfl
  | cons u texts ih =>
    cases i with
    | zero => rfl
    | succ i =>
      have hn : n + 1 + i = n + (i + 1) := by omega
      simp only [List.set_cons_succ, numbered, ih, hn]

/-- Reading a file with content. There is one line more than newlines, numbered from 1; each has the
text of its own bytes alone; other bytes in one of them leave the rest as they are; and bytes that
are text are written again as they were. -/
theorem readLines_of_bytes {disk : Disk} {path : String} {b : Bytes}
    (hread : disk.readFile path = .ok b) (hne : b ≠ []) :
    ∃ lines, readLines disk path = .ok lines ∧
      lines.map (·.number) = List.range' 1 (b.count newline + 1) ∧
      List.Forall₂ Decodes (b.splitOn newline) (lines.map (·.text.toList)) ∧
      (∀ (disk' : Disk) (path' : String) (b' s : Bytes) (i : Nat), newline ∉ s →
        b' = [newline].intercalate ((b.splitOn newline).set i s) → b' ≠ [] →
        disk'.readFile path' = .ok b' →
        readLines disk' path' = .ok (lines.set i ⟨String.ofList (decodeLossy s), i + 1⟩)) ∧
      (∀ s, b = encode s → encode (Line.join lines).toList = b) := by
  refine ⟨linesOfBytes b, by rw [readLines, hread], ?_, ?_, ?_, ?_⟩
  · rw [linesOfBytes_eq hne, Line.map_number_numbered, List.length_map, length_splitOn]
  · rw [linesOfBytes_eq hne, Line.map_toList_numbered]
    exact List.forall₂_map_right_iff.mpr (List.forall₂_same.mpr fun s _ => decodes_decodeLossy s)
  · intro disk' path' b' s i hs hb' hne' hread'
    have hnone : ∀ t ∈ (b.splitOn newline).set i s, newline ∉ t := by
      intro t ht
      rcases List.mem_or_eq_of_mem_set ht with ht | rfl
      · exact notMem_of_mem_splitOn ht
      · exact hs
    have hlines := linesOfBytes_intercalate hnone (hb' ▸ hne')
    rw [← hb', List.map_set, Line.numbered_set, ← linesOfBytes_eq hne, Nat.add_comm 1 i] at hlines
    rw [readLines, hread']
    exact congrArg Except.ok hlines
  · rintro s rfl
    rw [linesOfBytes, decodeLossy_encode, Line.join_ofText, String.toList_ofList]

/-- Two characters are cut short by newlines. Once the first has all its bytes, only its own line
is another. -/
theorem readLines_of_bytes_cut :
    let b : Bytes := [0xe2, 0x82, 0x0a, 0xc3, 0x0a, 0x61]
    let b' : Bytes := [0xe2, 0x82, 0xac, 0x0a, 0xc3, 0x0a, 0x61]
    let disk (content : Bytes) : Disk := ⟨.directory [("a.js", .file content)], []⟩
    ((disk b).readFile "a.js" = .ok b ∧ b ≠ []) ∧
      readLines (disk b) "a.js" = .ok [⟨"\ufffd", 1⟩, ⟨"\ufffd", 2⟩, ⟨"a", 3⟩] ∧
      readLines (disk b') "a.js" = .ok [⟨"€", 1⟩, ⟨"\ufffd", 2⟩, ⟨"a", 3⟩] := by
  intro b b' disk
  have hread (content : Bytes) : (disk content).readFile "a.js" = .ok content := by
    have hsteps : Path.steps "a.js" = [.enter "a.js"] := by decide +kernel
    have habsolute : Path.isAbsolute "a.js" = false := by decide +kernel
    simp [Disk.readFile, Disk.lookup, Disk.resolve, hsteps, habsolute, Disk.follow, disk,
      FileTree.at?, bind, Except.bind]
  have hne : b ≠ [] := by decide
  obtain ⟨lines, hlines, -, -, hset, -⟩ := readLines_of_bytes (hread b) hne
  have hthree : lines = [⟨"\ufffd", 1⟩, ⟨"\ufffd", 2⟩, ⟨"a", 3⟩] := by
    rw [readLines, hread] at hlines
    rw [← Except.ok.inj hlines]
    decide +kernel
  have hmended := hset (disk b') "a.js" b' [0xe2, 0x82, 0xac] 0 (by decide) (by decide) (by decide)
    (hread b')
  have htext : String.ofList (decodeLossy [0xe2, 0x82, 0xac]) = "€" := by decide +kernel
  rw [hthree, htext] at hmended
  exact ⟨⟨hread b, hne⟩, hthree ▸ hlines, hmended⟩

end ImportLedger
