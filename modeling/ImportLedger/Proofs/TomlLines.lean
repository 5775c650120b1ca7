import ImportLedger.Proofs.TomlStrings
import ImportLedger.Toml.Document
import Mathlib.Data.List.DropRight

/-! Lines that give keys their values. A text made of such lines is read line by line. -/

namespace ImportLedger.Toml

open Reader

variable {s rest : List Char} {entry : Key × Toml} {entries : List (Key × Toml)}

/-- The end of a line, or of the text. -/
def EndsLine (s : List Char) : Prop := s = [] ∨ ∃ later, afterNewline? s = some later

/-- A text that gives a key a value wherever a line may end behind it. -/
def Gives (text : List Char) (entry : Key × Toml) : Prop :=
  ∀ rest, EndsLine rest → statement (text ++ rest) = some (.entry entry.1 entry.2, rest)

/-- A text of lines, the last of which may be left open. -/
inductive Lines (line : List Char → Key × Toml → Prop) : List Char → List (Key × Toml) → Prop
  | nil : Lines line [] []
  | last {text : List Char} {entry : Key × Toml} (h : line text entry) : Lines line text [entry]
  | cons {text rest later : List Char} {entry : Key × Toml} {entries : List (Key × Toml)}
    (h : line text entry) (hend : afterNewline? rest = some later)
    (hlater : Lines line later entries) : Lines line (text ++ rest) (entry :: entries)

theorem Lines.mono {line line' : List Char → Key × Toml → Prop}
    (hline : ∀ text entry, line text entry → line' text entry) (h : Lines line s entries) :
    Lines line' s entries := by
  induction h with
  | nil => exact .nil
  | last h => exact .last (hline _ _ h)
  | cons h hend _ ih => exact .cons (hline _ _ h) hend ih

theorem afterNewline?_eq_some {later : List Char} (h : afterNewline? s = some later) :
    s = '\n' :: later ∨ s = '\r' :: '\n' :: later := by
  unfold afterNewline? at h
  split at h
  · exact .inl (congrArg _ (Option.some.inj h))
  · exact .inr (congrArg _ (congrArg _ (Option.some.inj h)))
  · cases h

theorem afterLine?_of_newline {later : List Char} (h : afterNewline? s = some later) :
    afterLine? s = some later := by
  rcases afterNewline?_eq_some h with rfl | rfl <;> rfl

theorem skipSpaces_append {blanks : List Char} (h : ∀ c ∈ blanks, isSpace c = true)
    (s : List Char) : skipSpaces (blanks ++ s) = skipSpaces s :=
  List.dropWhile_append_of_pos h

theorem skipSpaces_skipSpaces (s : List Char) : skipSpaces (skipSpaces s) = skipSpaces s :=
  List.dropWhile_idempotent isSpace s

/-- What a key begins with. -/
def opensKey (c : Char) : Bool := c == '"' || c == '\'' || isBareKey c

theorem opensKey_of_keyName {name : String × List Char} (h : keyName s = some name) :
    ∃ c later, s = c :: later ∧ opensKey c = true := by
  cases s with
  | nil => cases h
  | cons c later =>
    refine ⟨c, later, rfl, ?_⟩
    by_cases hquote : c = '"' ∨ c = '\''
    · rcases hquote with rfl | rfl <;> rfl
    · obtain ⟨hdouble, hsingle⟩ := not_or.mp hquote
      by_cases hbare : isBareKey c = true
      · simp [opensKey, hbare]
      · rw [keyName] at h
        · simp [hbare] at h
        · simpa using hdouble
        · simpa using hsingle

theorem keyNames_skipSpaces (bound : Nat) (path : List String) (s : List Char) :
    keyNames bound path (skipSpaces s) = keyNames bound path s := by
  cases bound with
  | zero => rfl
  | succ bound => rw [keyNames, keyNames, skipSpaces_skipSpaces]

/-- A key has a name at least. -/
theorem key_eq (s : List Char) : Reader.key s = keyNames (depthBound - 2 + 1) [] s := rfl

theorem opensKey_of_key {key : Key} (h : Reader.key s = some (key, rest)) :
    ∃ c later, skipSpaces s = c :: later ∧ opensKey c = true := by
  rw [key_eq, keyNames] at h
  cases hk : keyName (skipSpaces s) with
  | none =>
    rw [hk] at h
    cases h
  | some name => exact opensKey_of_keyName hk

theorem statement_of_head (h : s.head? ≠ some '[') :
    statement s = (do
      let (key, rest) ← Reader.key s
      let (value, rest) ← anyValue (skipSpaces (← expect '=' rest))
      some (.entry key value, rest)) := by
  rw [statement]
  · rintro rest rfl
    exact h rfl
  · rintro rest rfl
    exact h rfl

/-- A statement that gives a key a value begins with the key. -/
theorem opensKey_of_statement (h : statement s = some (.entry entry.1 entry.2, rest)) :
    s.head? ≠ some '[' ∧ ∃ c later, skipSpaces s = c :: later ∧ opensKey c = true := by
  by_cases hhead : s.head? = some '['
  · cases s with
    | nil => cases hhead
    | cons c s =>
      obtain rfl := Option.some.inj hhead
      unfold statement at h
      split at h
      · obtain ⟨_, _, h⟩ := Option.bind_eq_some_iff.mp h
        obtain ⟨_, _, h⟩ := Option.bind_eq_some_iff.mp h
        obtain ⟨_, _, h⟩ := Option.bind_eq_some_iff.mp h
        cases h
      · obtain ⟨_, _, h⟩ := Option.bind_eq_some_iff.mp h
        obtain ⟨_, _, h⟩ := Option.bind_eq_some_iff.mp h
        cases h
      · rename_i hno
        exact absurd rfl (hno s)
  · rw [statement_of_head hhead] at h
    obtain ⟨⟨key, left⟩, hk, -⟩ := Option.bind_eq_some_iff.mp h
    exact ⟨hhead, opensKey_of_key hk⟩

theorem statement_skipSpaces (h : statement s = some (.entry entry.1 entry.2, rest)) :
    statement (skipSpaces s) = some (.entry entry.1 entry.2, rest) := by
  obtain ⟨hhead, c, later, hs, hc⟩ := opensKey_of_statement h
  have hhead' : (skipSpaces s).head? ≠ some '[' := by
    rw [hs]
    rintro hbracket
    obtain rfl := Option.some.inj hbracket
    exact absurd hc (by decide)
  rw [statement_of_head hhead', Reader.key, keyNames_skipSpaces]
  rwa [statement_of_head hhead] at h

theorem afterLine?_of_statement (h : statement s = some (.entry entry.1 entry.2, rest)) :
    afterLine? s = none := by
  obtain ⟨-, c, later, hs, hc⟩ := opensKey_of_statement h
  have hne (d : Char) (hd : opensKey d = false) : c ≠ d := by
    rintro rfl
    rw [hd] at hc
    cases hc
  have hcomment : skipComment (c :: later) = c :: later := by
    rw [skipComment]
    simpa using hne '#' (by decide)
  rw [afterLine?, hs, hcomment]
  simp only
  rw [afterNewline?]
  · simpa using hne '\n' (by decide)
  · simp [hne '\r' (by decide)]

theorem withoutByteOrderMark_of_statement
    (h : statement s = some (.entry entry.1 entry.2, rest)) : withoutByteOrderMark s = s := by
  rw [withoutByteOrderMark]
  rintro later rfl
  obtain ⟨-, c, later', hs, hc⟩ := opensKey_of_statement h
  have hmark : skipSpaces ('\ufeff' :: later) = '\ufeff' :: later := rfl
  obtain rfl := (List.cons.inj (hmark.symm.trans hs)).1
  exact absurd hc (by decide)

theorem statements_of_lines (h : Lines Gives s entries) {fuel : Nat} (hfuel : s.length < fuel) :
    statements fuel s = some (entries.map fun entry => .entry entry.1 entry.2) := by
  induction h generalizing fuel with
  | nil =>
    obtain ⟨fuel, rfl⟩ := Nat.exists_eq_add_one_of_ne_zero (Nat.ne_zero_of_lt hfuel)
    rfl
  | @last text entry h =>
    obtain ⟨fuel, rfl⟩ := Nat.exists_eq_add_one_of_ne_zero (Nat.ne_zero_of_lt hfuel)
    have hread : statement text = some (.entry entry.1 entry.2, []) := by
      simpa using h [] (.inl rfl)
    have hend : statements fuel [] = some [] := by
      cases fuel <;> rfl
    rw [statements, afterLine?_of_statement hread, statement_skipSpaces hread]
    simp [afterLine?, skipSpaces, skipComment, hend]
  | @cons text rest later entry entries h hend hlater ih =>
    obtain ⟨fuel, rfl⟩ := Nat.exists_eq_add_one_of_ne_zero (Nat.ne_zero_of_lt hfuel)
    have hread := h rest (.inr ⟨later, hend⟩)
    -- The end of the line is a character at least, so that the fuel lasts.
    have hshort : later.length < fuel := by
      rcases afterNewline?_eq_some hend with rfl | rfl
      all_goals
        simp only [List.length_append, List.length_cons] at hfuel
        omega
    rw [statements, afterLine?_of_statement hread, statement_skipSpaces hread]
    simp [afterLine?_of_newline hend, ih hshort]

theorem ofText?_of_lines {text : String} (h : Lines Gives text.toList entries) :
    ofText? text = build (entries.map fun entry => .entry entry.1 entry.2) := by
  have hmark : withoutByteOrderMark text.toList = text.toList := by
    generalize text.toList = s at h
    cases h with
    | nil => rfl
    | last h =>
      have hread := h [] (.inl rfl)
      rw [List.append_nil] at hread
      exact withoutByteOrderMark_of_statement hread
    | cons h hend hlater => exact withoutByteOrderMark_of_statement (h _ (.inr ⟨_, hend⟩))
  simp only [ofText?, hmark]
  rw [statements_of_lines h (Nat.lt_succ_self _)]
  rfl

end ImportLedger.Toml
