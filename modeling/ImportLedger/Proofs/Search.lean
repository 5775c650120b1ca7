import ImportLedger.Statement.Occurrence

/-! The search for occurrences. What it finds are readings at places where a word
may begin, in the order of the text and without overlaps. A text can be searched
piece by piece: past a piece in which nothing is read, and past what is found. -/

namespace ImportLedger

namespace Text

theorem byteLength_pos {s : List Char} (h : s ≠ []) : 0 < byteLength s := by
  cases s with
  | nil => exact absurd rfl h
  | cons c s =>
    have := c.utf8Size_pos
    simp only [byteLength_cons]
    omega

/-- Of two beginnings of one text the shorter one begins the other. -/
theorem exists_append_of_byteLength_lt {p q s t : List Char} (h : p ++ s = q ++ t)
    (hlt : byteLength p < byteLength q) : ∃ d, d ≠ [] ∧ q = p ++ d ∧ s = d ++ t := by
  rcases List.append_eq_append_iff.mp h with ⟨d, hq, hs⟩ | ⟨d, hp, ht⟩
  · refine ⟨d, ?_, hq, hs⟩
    rintro rfl
    simp [hq] at hlt
  · rw [hp, byteLength_append] at hlt
    omega

/-- A text is cut in one way only at a byte offset. -/
theorem append_inj_of_byteLength {p q s t : List Char} (h : p ++ s = q ++ t)
    (he : byteLength p = byteLength q) : p = q ∧ s = t := by
  have hnil {d : List Char} (hd : byteLength d = 0) : d = [] := by
    cases d with
    | nil => rfl
    | cons c d => exact absurd hd (Nat.ne_of_gt (byteLength_pos (List.cons_ne_nil c d)))
  rcases List.append_eq_append_iff.mp h with ⟨d, rfl, rfl⟩ | ⟨d, rfl, rfl⟩
  · rw [byteLength_append] at he
    obtain rfl := hnil (show byteLength d = 0 by omega)
    simp
  · rw [byteLength_append] at he
    obtain rfl := hnil (show byteLength d = 0 by omega)
    simp

end Text

namespace Occurrence

open Text

variable {α : Type} {read : Reader α}

/-- The character that stands before what comes after a piece of text. -/
def lastOr (before : Option Char) : List Char → Option Char
  | [] => before
  | c :: s => lastOr (some c) s

theorem lastOr_append (before : Option Char) (s t : List Char) :
    lastOr before (s ++ t) = lastOr (lastOr before s) t := by
  induction s generalizing before with
  | nil => rfl
  | cons c s ih => exact ih (some c)

theorem lastOr_concat (before : Option Char) (s : List Char) (c : Char) :
    lastOr before (s ++ [c]) = some c := by
  rw [lastOr_append]
  rfl

theorem lastOr_none (s : List Char) : lastOr none s = s.getLast? := by
  rcases List.eq_nil_or_concat s with rfl | ⟨t, c, rfl⟩
  · rfl
  · rw [List.concat_eq_append, lastOr_concat, List.getLast?_concat]

theorem wordMayFollow_iff {before : Option Char} :
    wordMayFollow before = true ↔ ∀ c ∈ before, isWord c = false := by
  cases before <;> simp [wordMayFollow]

theorem wordMayFollow_lastOr {before : Option Char} {s : List Char}
    (hb : wordMayFollow before = true) (hs : ∀ c ∈ s, isWord c = false) :
    wordMayFollow (lastOr before s) = true := by
  induction s generalizing before with
  | nil => exact hb
  | cons c s ih =>
    have hc : wordMayFollow (some c) = true := by simp [wordMayFollow, hs c List.mem_cons_self]
    exact ih hc fun d hd => hs d (List.mem_cons_of_mem _ hd)

theorem mem_candidates {before : Option Char} {offset : Nat} {s : List Char} {o : Occurrence α} :
    o ∈ candidates read before offset s ↔
      ∃ p c r v left, s = p ++ c :: r ∧ wordMayFollow (lastOr before p) = true ∧
        read (c :: r) = some (v, left) ∧
        o = ⟨offset + byteLength p, consumed (c :: r) left, v⟩ := by
  induction s generalizing before offset with
  | nil => simp [candidates]
  | cons c s ih =>
    have hlater : o ∈ candidates read (some c) (offset + c.utf8Size) s ↔
        ∃ p d r v left, c :: s = (c :: p) ++ d :: r ∧
          wordMayFollow (lastOr before (c :: p)) = true ∧ read (d :: r) = some (v, left) ∧
          o = ⟨offset + byteLength (c :: p), consumed (d :: r) left, v⟩ := by
      rw [ih]
      simp [lastOr, Nat.add_assoc]
    have hsplit : (∃ p d r v left, c :: s = p ++ d :: r ∧
          wordMayFollow (lastOr before p) = true ∧ read (d :: r) = some (v, left) ∧
          o = ⟨offset + byteLength p, consumed (d :: r) left, v⟩) ↔
        (wordMayFollow before = true ∧ ∃ v left, read (c :: s) = some (v, left) ∧
          o = ⟨offset, consumed (c :: s) left, v⟩) ∨
        o ∈ candidates read (some c) (offset + c.utf8Size) s := by
      rw [hlater]
      constructor
      · rintro ⟨p, d, r, v, left, hs, hw, hr, ho⟩
        cases p with
        | nil =>
          obtain ⟨rfl, rfl⟩ := List.cons.inj hs
          exact .inl ⟨hw, v, left, hr, ho⟩
        | cons e p =>
          obtain ⟨rfl, rfl⟩ := List.cons.inj hs
          exact .inr ⟨p, d, r, v, left, rfl, hw, hr, ho⟩
      · rintro (⟨hw, v, left, hr, ho⟩ | ⟨p, d, r, v, left, hs, hw, hr, ho⟩)
        · exact ⟨[], c, s, v, left, rfl, hw, hr, ho⟩
        · exact ⟨c :: p, d, r, v, left, hs, hw, hr, ho⟩
    rw [hsplit, candidates]
    by_cases hw : wordMayFollow before = true
    · cases hr : read (c :: s) with
      | none => simp [hw]
      | some found =>
        obtain ⟨v, left⟩ := found
        rw [if_pos hw, List.mem_cons]
        refine or_congr ⟨fun ho => ⟨hw, v, left, rfl, ho⟩, ?_⟩ Iff.rfl
        rintro ⟨-, _, _, ⟨⟩, ho⟩
        exact ho
    · simp [hw]

theorem candidates_pairwise (before : Option Char) (offset : Nat) (s : List Char) :
    (candidates read before offset s).Pairwise (·.start < ·.start) := by
  induction s generalizing before offset with
  | nil => exact .nil
  | cons c s ih =>
    have hlater := ih (some c) (offset + c.utf8Size)
    have hstart : ∀ o ∈ candidates read (some c) (offset + c.utf8Size) s, offset < o.start := by
      intro o ho
      obtain ⟨p, _, _, _, _, _, _, _, rfl⟩ := mem_candidates.mp ho
      have := c.utf8Size_pos
      dsimp only
      omega
    rw [candidates]
    split
    · split
      · exact List.pairwise_cons.mpr ⟨hstart, hlater⟩
      · exact hlater
    · exact hlater

theorem leftmost_sublist (bound : Nat) (l : List (Occurrence α)) :
    (leftmost bound l).Sublist l := by
  induction l generalizing bound with
  | nil => exact .slnil
  | cons o rest ih =>
    rw [leftmost]
    split
    · exact (ih bound).cons o
    · exact (ih o.stop).cons_cons o

theorem le_start_of_mem_leftmost {bound : Nat} {l : List (Occurrence α)} {o : Occurrence α}
    (h : o ∈ leftmost bound l) : bound ≤ o.start := by
  induction l generalizing bound with
  | nil => simp [leftmost] at h
  | cons first rest ih =>
    rw [leftmost] at h
    split at h
    · exact ih h
    · rcases List.mem_cons.mp h with rfl | h
      · omega
      · have := ih h
        rw [stop] at this
        omega

theorem leftmost_pairwise (bound : Nat) (l : List (Occurrence α)) :
    (leftmost bound l).Pairwise fun a b => a.stop ≤ b.start := by
  induction l generalizing bound with
  | nil => exact .nil
  | cons o rest ih =>
    rw [leftmost]
    split
    · exact ih bound
    · exact List.pairwise_cons.mpr ⟨fun _ hb => le_start_of_mem_leftmost hb, ih o.stop⟩

/-- A candidate that no earlier one runs into is found. -/
theorem mem_leftmost_of_clear {bound : Nat} {l : List (Occurrence α)} {o : Occurrence α}
    (hl : l.Pairwise (·.start < ·.start)) (ho : o ∈ l) (hb : bound ≤ o.start)
    (hclear : ∀ a ∈ l, a.start < o.start → a.stop ≤ o.start) : o ∈ leftmost bound l := by
  induction l generalizing bound with
  | nil => simp at ho
  | cons first rest ih =>
    obtain ⟨hfirst, hrest⟩ := List.pairwise_cons.mp hl
    have hclear' : ∀ a ∈ rest, a.start < o.start → a.stop ≤ o.start :=
      fun a ha => hclear a (List.mem_cons_of_mem _ ha)
    rw [leftmost]
    rcases List.mem_cons.mp ho with rfl | ho
    · rw [if_neg (by omega)]
      exact List.mem_cons_self
    · split
      · exact ih hrest ho hb hclear'
      · have hs := hclear first List.mem_cons_self (hfirst o ho)
        exact List.mem_cons_of_mem _ (ih hrest ho hs hclear')

/-- A candidate that is not found lies in one that is. -/
theorem mem_leftmost_or_covered {bound : Nat} {l : List (Occurrence α)} {o : Occurrence α}
    (hl : l.Pairwise (·.start < ·.start)) (ho : o ∈ l) (hb : bound ≤ o.start) :
    o ∈ leftmost bound l ∨ ∃ a ∈ leftmost bound l, a.start < o.start ∧ o.start < a.stop := by
  induction l generalizing bound with
  | nil => simp at ho
  | cons first rest ih =>
    obtain ⟨hfirst, hrest⟩ := List.pairwise_cons.mp hl
    rw [leftmost]
    rcases List.mem_cons.mp ho with rfl | ho
    · rw [if_neg (by omega)]
      exact .inl List.mem_cons_self
    · have hlt := hfirst o ho
      split
      · exact ih hrest ho hb
      · by_cases hs : first.stop ≤ o.start
        · rcases ih hrest ho hs with hmem | ⟨a, ha, hcover⟩
          · exact .inl (List.mem_cons_of_mem _ hmem)
          · exact .inr ⟨a, List.mem_cons_of_mem _ ha, hcover⟩
        · exact .inr ⟨first, List.mem_cons_self, hlt, by omega⟩

theorem mem_findAll_of_clear {text p r left : List Char} {c : Char} {v : α}
    (ht : text = p ++ c :: r) (hw : wordMayFollow (lastOr none p) = true)
    (hr : read (c :: r) = some (v, left))
    (hclear : ∀ a ∈ candidates read none 0 text,
      a.start < byteLength p → a.stop ≤ byteLength p) :
    ⟨byteLength p, consumed (c :: r) left, v⟩ ∈ findAll read text := by
  refine mem_leftmost_of_clear (candidates_pairwise none 0 text) ?_ (Nat.zero_le _) hclear
  exact mem_candidates.mpr ⟨p, c, r, v, left, ht, hw, hr, by rw [Nat.zero_add]⟩

/-- What can be read where a word may begin is found there, or it begins within what is found
before it. -/
theorem mem_findAll_or_covered {text p r left : List Char} {c : Char} {v : α}
    (ht : text = p ++ c :: r) (hw : wordMayFollow (lastOr none p) = true)
    (hr : read (c :: r) = some (v, left)) :
    ⟨byteLength p, consumed (c :: r) left, v⟩ ∈ findAll read text ∨
      ∃ a ∈ findAll read text, a.start < byteLength p ∧ byteLength p < a.stop := by
  refine mem_leftmost_or_covered (candidates_pairwise none 0 text) ?_ (Nat.zero_le _)
  exact mem_candidates.mpr ⟨p, c, r, v, left, ht, hw, hr, by rw [Nat.zero_add]⟩

theorem exists_of_mem_findAll {text : List Char} {o : Occurrence α} (h : o ∈ findAll read text) :
    ∃ p c r left, text = p ++ c :: r ∧ wordMayFollow (lastOr none p) = true ∧
      read (c :: r) = some (o.value, left) ∧ o.start = byteLength p ∧
      o.text = consumed (c :: r) left := by
  have hc := (leftmost_sublist 0 _).subset h
  obtain ⟨p, c, r, v, left, hs, hw, hr, rfl⟩ := mem_candidates.mp hc
  exact ⟨p, c, r, left, hs, hw, hr, Nat.zero_add _, rfl⟩

/-- The search of a text that follows the character `before` and lies at byte offset `offset`. -/
def found (read : Reader α) (before : Option Char) (offset : Nat) (s : List Char) :
    List (Occurrence α) :=
  leftmost offset (candidates read before offset s)

/-- Nothing is read from within a piece of text, with what comes after it in sight. -/
def Quiet (read : Reader α) (before : Option Char) (piece later : List Char) : Prop :=
  ∀ p c r, piece = p ++ c :: r → wordMayFollow (lastOr before p) = true →
    read (c :: (r ++ later)) = none

theorem Quiet.append {before : Option Char} {u v later : List Char}
    (hu : Quiet read before u (v ++ later)) (hv : Quiet read (lastOr before u) v later) :
    Quiet read before (u ++ v) later := by
  intro p c r hs hw
  rcases List.append_eq_append_iff.mp hs with ⟨t, rfl, hv'⟩ | ⟨t, hu', ht⟩
  · rw [lastOr_append] at hw
    exact hv t c r hv' hw
  · cases t with
    | nil =>
      rw [List.append_nil] at hu'
      rw [← hu'] at hw
      exact hv [] c r ht.symm hw
    | cons d t =>
      obtain ⟨rfl, hr⟩ := List.cons.inj ht
      have hr : r = t ++ v := hr
      rw [hr, List.append_assoc]
      exact hu p c t hu' hw

theorem candidates_of_quiet {before : Option Char} {piece later : List Char}
    (h : Quiet read before piece later) (offset : Nat) :
    candidates read before offset (piece ++ later) =
      candidates read (lastOr before piece) (offset + byteLength piece) later := by
  induction piece generalizing before offset with
  | nil => rfl
  | cons c piece ih =>
    have hlater : Quiet read (some c) piece later := by
      intro p d r hs hw
      exact h (c :: p) d r (by rw [hs]; rfl) hw
    have hh := ih hlater (offset + c.utf8Size)
    rw [Nat.add_assoc] at hh
    rw [List.cons_append, candidates]
    by_cases hw : wordMayFollow before = true
    · rw [if_pos hw, h [] c piece rfl hw]
      exact hh
    · rw [if_neg hw]
      exact hh

theorem leftmost_of_le_start {m n : Nat} {l : List (Occurrence α)} (hmn : m ≤ n)
    (hl : ∀ o ∈ l, n ≤ o.start) : leftmost m l = leftmost n l := by
  cases l with
  | nil => rfl
  | cons o l =>
    have ho := hl o List.mem_cons_self
    rw [leftmost, leftmost, if_neg (by omega), if_neg (by omega)]

/-- A search past a piece of text drops what is read from within the piece. -/
theorem leftmost_candidates_append (before : Option Char) (offset : Nat) (piece later : List Char) :
    leftmost (offset + byteLength piece) (candidates read before offset (piece ++ later)) =
      found read (lastOr before piece) (offset + byteLength piece) later := by
  induction piece generalizing before offset with
  | nil => rfl
  | cons c piece ih =>
    have hpos := c.utf8Size_pos
    have hh := ih (some c) (offset + c.utf8Size)
    rw [Nat.add_assoc] at hh
    rw [List.cons_append, candidates]
    by_cases hw : wordMayFollow before = true
    · rw [if_pos hw]
      split
      · rw [leftmost, if_pos (by simp only [byteLength_cons]; omega)]
        exact hh
      · exact hh
    · rw [if_neg hw]
      exact hh

theorem found_of_quiet {before : Option Char} {piece later : List Char}
    (h : Quiet read before piece later) (offset : Nat) :
    found read before offset (piece ++ later) =
      found read (lastOr before piece) (offset + byteLength piece) later := by
  rw [found, candidates_of_quiet h]
  refine leftmost_of_le_start (Nat.le_add_right _ _) fun o ho => ?_
  obtain ⟨p, _, _, _, _, _, _, _, rfl⟩ := mem_candidates.mp ho
  exact Nat.le_add_right _ _

theorem found_of_read {before : Option Char} {piece later : List Char} {v : α}
    (hne : piece ≠ []) (hw : wordMayFollow before = true)
    (h : read (piece ++ later) = some (v, later)) (offset : Nat) :
    found read before offset (piece ++ later) =
      ⟨offset, piece, v⟩ ::
        found read (lastOr before piece) (offset + byteLength piece) later := by
  obtain ⟨c, piece, rfl⟩ := List.exists_cons_of_ne_nil hne
  have hconsumed : consumed (c :: (piece ++ later)) later = c :: piece :=
    consumed_append (c :: piece) later
  have hdrop : leftmost (offset + c.utf8Size + byteLength piece)
      (candidates read (some c) (offset + c.utf8Size) (piece ++ later)) =
        found read (lastOr (some c) piece) (offset + c.utf8Size + byteLength piece) later :=
    leftmost_candidates_append (some c) (offset + c.utf8Size) piece later
  rw [List.cons_append] at h ⊢
  rw [found, candidates, if_pos hw, h]
  show leftmost offset (⟨offset, consumed (c :: (piece ++ later)) later, v⟩ :: _) = _
  rw [hconsumed, leftmost, if_neg (Nat.lt_irrefl _), stop, byteLength_cons, ← Nat.add_assoc,
    hdrop]
  rfl

theorem findAll_eq_nil {text : List Char} (h : ∀ p s v, text = p ++ s →
    wordMayFollow (lastOr none p) = true → read s ≠ some v) : findAll read text = [] := by
  refine List.eq_nil_iff_forall_not_mem.mpr fun o ho => ?_
  obtain ⟨p, c, r, left, ht, hw, hr, -, -⟩ := exists_of_mem_findAll ho
  exact h p (c :: r) _ ht hw hr

/-- What is read up to the end of a text is all that is found, if nothing is read before it. -/
theorem findAll_eq_singleton {p s : List Char} {v : α} (hp : Quiet read none p s)
    (hw : wordMayFollow (lastOr none p) = true) (hne : s ≠ []) (hr : read s = some (v, [])) :
    findAll read (p ++ s) = [⟨byteLength p, s, v⟩] := by
  have hread : read (s ++ []) = some (v, []) := by rwa [List.append_nil]
  have hlast := found_of_read hne hw hread (byteLength p)
  rw [List.append_nil] at hlast
  show found read none 0 (p ++ s) = _
  rw [found_of_quiet hp, Nat.zero_add, hlast]
  rfl

section Values

variable {β : Type} {f : α → β}

/-- The occurrence with what was read replaced by what follows from it. -/
def map (f : α → β) (o : Occurrence α) : Occurrence β := ⟨o.start, o.text, f o.value⟩

theorem leftmost_map (bound : Nat) (l : List (Occurrence α)) :
    leftmost bound (l.map (map f)) = (leftmost bound l).map (map f) := by
  induction l generalizing bound with
  | nil => rfl
  | cons o l ih =>
    rw [List.map_cons, leftmost, leftmost]
    by_cases h : o.start < bound
    · rw [if_pos h, if_pos (show (map f o).start < bound from h)]
      exact ih bound
    · rw [if_neg h, if_neg (show ¬ (map f o).start < bound from h), List.map_cons]
      exact congrArg (map f o :: ·) (ih o.stop)

theorem candidates_map (before : Option Char) (offset : Nat) (s : List Char) :
    candidates (fun s => (read s).map fun (v, left) => (f v, left)) before offset s =
      (candidates read before offset s).map (map f) := by
  induction s generalizing before offset with
  | nil => rfl
  | cons c s ih =>
    rw [candidates, candidates, ih]
    by_cases hw : wordMayFollow before = true
    · rw [if_pos hw, if_pos hw]
      cases read (c :: s) with
      | none => rfl
      | some found => rfl
    · rw [if_neg hw, if_neg hw]

theorem findAll_map (text : List Char) :
    findAll (fun s => (read s).map fun (v, left) => (f v, left)) text =
      (findAll read text).map (map f) := by
  rw [findAll, candidates_map, leftmost_map]
  rfl

end Values

theorem findAll_pairwise_start (text : List Char) :
    (findAll read text).Pairwise (·.start < ·.start) :=
  (candidates_pairwise none 0 text).sublist (leftmost_sublist 0 _)

end Occurrence

end ImportLedger
