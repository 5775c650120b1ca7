import ImportLedger.Text.Split

/-! Patterns over the characters of a line, and how they are read: every reading of a pattern is
tried in order of preference, and the readings are exactly the texts that the pattern describes. -/

namespace ImportLedger

/-- A regular expression; `run` prefers long runs and `either` its first alternative. -/
inductive Pattern
  | literal (word : String)
  | one (accepts : Char → Bool)
  | run (accepts : Char → Bool)
  | seq (first second : Pattern)
  | either (first second : Pattern)

namespace Pattern

instance : Append Pattern := ⟨seq⟩

def optional (p : Pattern) : Pattern := either p (literal "")

/-- A run of at least one character. -/
def someOf (accepts : Char → Bool) : Pattern := one accepts ++ run accepts

/-- What may be left after a run, added in front of `shorter`, the longest run first. -/
def runRests (accepts : Char → Bool) : List Char → List (List Char) → List (List Char)
  | [], shorter => [] :: shorter
  | c :: s, shorter =>
    if accepts c then runRests accepts s ((c :: s) :: shorter) else (c :: s) :: shorter

/-- What may be left of a text once the pattern has read its beginning, the preferred reading
first. -/
def rests : Pattern → List Char → List (List Char)
  | literal word, s => if word.toList.isPrefixOf s then [s.drop word.toList.length] else []
  | one _, [] => []
  | one accepts, c :: s => if accepts c then [s] else []
  | run accepts, s => runRests accepts s []
  | seq first second, s => (first.rests s).flatMap second.rests
  | either first second, s => first.rests s ++ second.rests s

/-- The texts that a pattern describes. -/
inductive Describes : Pattern → List Char → Prop
  | literal (word : String) : Describes (literal word) word.toList
  | one {accepts : Char → Bool} {c : Char} (h : accepts c = true) : Describes (one accepts) [c]
  | run {accepts : Char → Bool} {s : List Char} (h : ∀ c ∈ s, accepts c = true) :
    Describes (run accepts) s
  | seq {p q : Pattern} {s t : List Char} (hs : Describes p s) (ht : Describes q t) :
    Describes (seq p q) (s ++ t)
  | first {p q : Pattern} {s : List Char} (h : Describes p s) : Describes (either p q) s
  | second {p q : Pattern} {s : List Char} (h : Describes q s) : Describes (either p q) s

theorem mem_runRests {accepts : Char → Bool} {s r : List Char} {shorter : List (List Char)} :
    r ∈ runRests accepts s shorter ↔
      r ∈ shorter ∨ ∃ t, (∀ c ∈ t, accepts c = true) ∧ s = t ++ r := by
  induction s generalizing shorter with
  | nil =>
    simp only [runRests, List.mem_cons]
    constructor
    · rintro (rfl | h)
      · exact .inr ⟨[], by simp⟩
      · exact .inl h
    · rintro (h | ⟨t, _, ht⟩)
      · exact .inr h
      · exact .inl (by simp at ht; exact ht.2)
  | cons c s ih =>
    by_cases h : accepts c = true
    · simp only [runRests, h, if_true, ih, List.mem_cons]
      constructor
      · rintro ((rfl | hr) | ⟨t, ht, rfl⟩)
        · exact .inr ⟨[], by simp⟩
        · exact .inl hr
        · exact .inr ⟨c :: t, by simpa [h] using ht, rfl⟩
      · rintro (hr | ⟨t, ht, hs⟩)
        · exact .inl (.inr hr)
        · cases t with
          | nil => exact .inl (.inl hs.symm)
          | cons d t =>
            obtain ⟨rfl, rfl⟩ := List.cons.inj hs
            exact .inr ⟨t, fun x hx => ht x (by simp [hx]), rfl⟩
    · rw [runRests, if_neg h, List.mem_cons]
      constructor
      · rintro (rfl | hr)
        · exact .inr ⟨[], by simp⟩
        · exact .inl hr
      · rintro (hr | ⟨t, ht, hs⟩)
        · exact .inr hr
        · cases t with
          | nil => exact .inl hs.symm
          | cons d t =>
            obtain ⟨rfl, rfl⟩ := List.cons.inj hs
            exact absurd (ht c (by simp)) h

/-- Reading a pattern finds the described beginnings of a text and no others. -/
theorem mem_rests {p : Pattern} {s r : List Char} :
    r ∈ p.rests s ↔ ∃ t, p.Describes t ∧ s = t ++ r := by
  induction p generalizing s r with
  | literal word =>
    simp only [rests]
    constructor
    · intro h
      by_cases begins : word.toList.isPrefixOf s = true
      · obtain ⟨t, rfl⟩ := List.isPrefixOf_iff_prefix.mp begins
        exact ⟨_, .literal word, by simp_all⟩
      · simp [begins] at h
    · rintro ⟨t, ⟨⟩, rfl⟩
      simp
  | one accepts =>
    constructor
    · intro h
      cases s with
      | nil => simp [rests] at h
      | cons c s =>
        by_cases accepted : accepts c = true
        · exact ⟨[c], .one accepted, by simp_all [rests]⟩
        · simp [rests, accepted] at h
    · rintro ⟨t, ⟨⟩, rfl⟩
      simp_all [rests]
  | run accepts =>
    simp only [rests, mem_runRests, List.not_mem_nil, false_or]
    constructor
    · rintro ⟨t, ht, rfl⟩
      exact ⟨t, .run ht, rfl⟩
    · rintro ⟨t, ⟨⟩, rfl⟩
      exact ⟨t, by assumption, rfl⟩
  | seq p q ihp ihq =>
    simp only [rests, List.mem_flatMap, ihp, ihq]
    constructor
    · rintro ⟨m, ⟨t, ht, rfl⟩, u, hu, rfl⟩
      exact ⟨t ++ u, .seq ht hu, by simp⟩
    · rintro ⟨_, ⟨⟩, rfl⟩
      rename_i t u ht hu
      exact ⟨u ++ r, ⟨t, ht, by simp⟩, u, hu, rfl⟩
  | either p q ihp ihq =>
    simp only [rests, List.mem_append, ihp, ihq]
    constructor
    · rintro (⟨t, ht, rfl⟩ | ⟨t, ht, rfl⟩)
      · exact ⟨t, .first ht, rfl⟩
      · exact ⟨t, .second ht, rfl⟩
    · rintro ⟨t, ht, rfl⟩
      cases ht with
      | first h => exact .inl ⟨t, h, rfl⟩
      | second h => exact .inr ⟨t, h, rfl⟩

end Pattern

end ImportLedger
