import ImportLedger.Identifier
import ImportLedger.Proofs.JoinedLines

/-! The tokens of a text are the tokens of its lines. A newline is neither part of a token nor of a
name, so no token runs over it and none is passed over because of it. -/

namespace ImportLedger

open Text

namespace Identifier

/-- The token as it stands in a text that has so many bytes more in front. -/
def shift (n : Nat) (i : Identifier) : Identifier := { i with start := n + i.start }

theorem scan_of_newline (inside : Bool) (before : Option Char) (offset : Nat) (t : List Char) :
    scan inside before offset ('\n' :: t) = scan false none (offset + 1) t := by
  have hstart : isTokenStart '\n' = false := by decide
  have hpart : isTokenPart '\n' = false := by decide
  have hsize : '\n'.utf8Size = 1 := by decide
  have hbefore : scan false (some '\n') (offset + 1) t = scan false none (offset + 1) t := by
    have hmay : nameMayFollow (some '\n') = nameMayFollow none := by decide
    cases t with
    | nil => rfl
    | cons c t => rw [scan, scan, hmay]
  cases inside with
  | true => rw [scan, hpart, hsize, hbefore]
  | false => simp only [scan, hstart, hsize, Bool.false_and, Bool.false_eq_true, if_false, hbefore]

theorem takeWhile_append_newline (s t : List Char) :
    (s ++ '\n' :: t).takeWhile isTokenPart = s.takeWhile isTokenPart := by
  have hpart : isTokenPart '\n' = false := by decide
  induction s with
  | nil => simp [hpart]
  | cons c s ih =>
    by_cases hc : isTokenPart c = true
    · simp [hc, ih]
    · simp [hc]

/-- Past a newline a search for tokens begins anew. -/
theorem scan_append_newline (inside : Bool) (before : Option Char) (offset : Nat)
    (s t : List Char) :
    scan inside before offset (s ++ '\n' :: t) =
      scan inside before offset s ++ scan false none (offset + byteLength s + 1) t := by
  induction s generalizing inside before offset with
  | nil => exact scan_of_newline inside before offset t
  | cons c s ih =>
    rw [List.cons_append, byteLength_cons, ← Nat.add_assoc]
    cases inside with
    | true => exact ih (isTokenPart c) (some c) (offset + c.utf8Size)
    | false =>
      simp only [scan, ih, takeWhile_append_newline]
      split <;> rfl

theorem scan_shift (inside : Bool) (before : Option Char) (n offset : Nat) (s : List Char) :
    scan inside before (n + offset) s = (scan inside before offset s).map (shift n) := by
  induction s generalizing inside before offset with
  | nil => rfl
  | cons c s ih =>
    cases inside with
    | true => rw [scan, scan, Nat.add_assoc, ih]
    | false =>
      simp only [scan, Nat.add_assoc, ih]
      split <;> rfl

theorem start_lt_of_mem_scan {inside : Bool} {before : Option Char} {offset : Nat} {s : List Char}
    {i : Identifier} (h : i ∈ scan inside before offset s) :
    offset ≤ i.start ∧ i.start < offset + byteLength s := by
  induction s generalizing inside before offset with
  | nil => simp [scan] at h
  | cons c s ih =>
    have hpos := c.utf8Size_pos
    have hlater {inside : Bool} (hm : i ∈ scan inside (some c) (offset + c.utf8Size) s) :
        offset ≤ i.start ∧ i.start < offset + byteLength (c :: s) := by
      have hh := ih hm
      rw [byteLength_cons]
      omega
    cases inside with
    | true => exact hlater h
    | false =>
      simp only [scan] at h
      split at h
      · rcases List.mem_cons.mp h with rfl | h
        · rw [byteLength_cons]
          dsimp only
          omega
        · exact hlater h
      · exact hlater h

end Identifier

namespace Line

/-- Byte offset behind so many newlines of a text. -/
def offsetAfter : (newlines : Nat) → List Char → Nat
  | 0, _ => 0
  | _ + 1, [] => 0
  | n + 1, c :: s => c.utf8Size + offsetAfter (if c = '\n' then n else n + 1) s

/-- Byte offset at which the line with a number begins. -/
def startIn (text : String) (number : Nat) : Nat := offsetAfter (number - 1) text.toList

theorem offsetAfter_append_newline {s : List Char} (h : '\n' ∉ s) (n : Nat) (t : List Char) :
    offsetAfter (n + 1) (s ++ '\n' :: t) = byteLength s + 1 + offsetAfter n t := by
  have hsize : '\n'.utf8Size = 1 := by decide
  induction s with
  | nil => simp [offsetAfter, hsize]
  | cons c s ih =>
    have hc : c ≠ '\n' := fun e => h (e ▸ List.mem_cons_self)
    have hs : '\n' ∉ s := fun hm => h (List.mem_cons_of_mem _ hm)
    rw [List.cons_append, offsetAfter, if_neg hc, ih hs, byteLength_cons]
    omega

theorem number_le_of_mem_numbered {n : Nat} {texts : List (List Char)} {line : Line}
    (h : line ∈ numbered n texts) : n ≤ line.number := by
  have hm : line.number ∈ (numbered n texts).map (·.number) := List.mem_map_of_mem h
  rw [map_number_numbered, List.mem_range'_1] at hm
  exact hm.1

theorem offsetAfter_of_mem_rest {s t : List Char} {n : Nat} {texts : List (List Char)} {line : Line}
    (hs : '\n' ∉ s) (h : line ∈ numbered (n + 1) texts) :
    offsetAfter (line.number - n) (s ++ '\n' :: t) =
      byteLength s + 1 + offsetAfter (line.number - (n + 1)) t := by
  have hn := number_le_of_mem_numbered h
  have he : line.number - n = line.number - (n + 1) + 1 := by omega
  rw [he, offsetAfter_append_newline hs]

theorem intercalate_newline (s t : List Char) (texts : List (List Char)) :
    ['\n'].intercalate (s :: t :: texts) = s ++ '\n' :: ['\n'].intercalate (t :: texts) := by
  simp [List.intercalate_cons_cons]

theorem scan_intercalate {texts : List (List Char)} (hne : texts ≠ []) (h : ∀ s ∈ texts, '\n' ∉ s)
    (n : Nat) :
    Identifier.scan false none 0 (['\n'].intercalate texts) =
      (numbered n texts).flatMap fun line => (identifiers line.text).map
        (Identifier.shift (offsetAfter (line.number - n) (['\n'].intercalate texts))) := by
  have hself (s : List Char) : (identifiers (String.ofList s)).map (Identifier.shift 0) =
      Identifier.scan false none 0 s := by
    rw [identifiers, String.toList_ofList, ← Identifier.scan_shift]
  induction texts generalizing n with
  | nil => exact absurd rfl hne
  | cons s texts ih =>
    have hs : '\n' ∉ s := h s List.mem_cons_self
    cases texts with
    | nil => simp [numbered, offsetAfter, hself]
    | cons t texts =>
      have hrest := ih (List.cons_ne_nil _ _) (fun u hu => h u (List.mem_cons_of_mem _ hu)) (n + 1)
      rw [intercalate_newline, Identifier.scan_append_newline, numbered, List.flatMap_cons,
        Nat.zero_add]
      congr 1
      · simp only [Nat.sub_self, offsetAfter]
        exact (hself s).symm
      -- The other lines are searched from the start of the second, then moved behind the first.
      · have hmove := Identifier.scan_shift false none (byteLength s + 1) 0
          (['\n'].intercalate (t :: texts))
        rw [Nat.add_zero] at hmove
        rw [hmove, hrest, List.map_flatMap]
        refine List.flatMap_congr fun line hl => ?_
        rw [offsetAfter_of_mem_rest hs hl, List.map_map]
        refine List.map_congr_left fun i _ => ?_
        simp [Identifier.shift, Nat.add_assoc]

/-- Every line ends before the next one begins. -/
theorem pairwise_offset_numbered {texts : List (List Char)} (h : ∀ s ∈ texts, '\n' ∉ s) (n : Nat) :
    (numbered n texts).Pairwise fun a b =>
      offsetAfter (a.number - n) (['\n'].intercalate texts) + byteLength a.text.toList <
        offsetAfter (b.number - n) (['\n'].intercalate texts) := by
  induction texts generalizing n with
  | nil => exact .nil
  | cons s texts ih =>
    have hs : '\n' ∉ s := h s List.mem_cons_self
    cases texts with
    | nil => exact List.pairwise_singleton _ _
    | cons t texts =>
      have hrest := ih (fun u hu => h u (List.mem_cons_of_mem _ hu)) (n + 1)
      rw [intercalate_newline, numbered]
      refine List.pairwise_cons.mpr ⟨fun b hb => ?_, hrest.imp_of_mem fun {a b} ha hb hab => ?_⟩
      · rw [offsetAfter_of_mem_rest hs hb]
        simp only [Nat.sub_self, offsetAfter, String.toList_ofList]
        omega
      · rw [offsetAfter_of_mem_rest hs ha, offsetAfter_of_mem_rest hs hb]
        omega

theorem identifiers_eq_flatMap (text : String) :
    identifiers text = (ofText text).flatMap fun line =>
      (identifiers line.text).map (Identifier.shift (startIn text line.number)) := by
  by_cases h : text.toList = []
  · rw [identifiers, ofText, h]
    rfl
  · have hh := scan_intercalate (List.splitOn_ne_nil '\n' text.toList)
      (fun _ hs => notMem_of_mem_splitOn hs) 1
    rw [List.intercalate_splitOn] at hh
    rw [ofText_eq h]
    exact hh

theorem pairwise_startIn (text : String) :
    (ofText text).Pairwise fun a b =>
      startIn text a.number + byteLength a.text.toList < startIn text b.number := by
  by_cases h : text.toList = []
  · rw [ofText, h]
    exact .nil
  · have hh := pairwise_offset_numbered (fun s (hs : s ∈ text.toList.splitOn '\n') =>
      notMem_of_mem_splitOn hs) 1
    rw [List.intercalate_splitOn] at hh
    rw [ofText_eq h]
    exact hh

end Line

end ImportLedger
