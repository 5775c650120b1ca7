import ImportLedger.Json.Token

/-! Written strings and integers. Each of them can be told from the text that it begins, and is
read as what it was written for. -/

namespace ImportLedger.Json

/-- Whether a text can stand behind a value: it is at its end or goes on with a mark. -/
def Follows (s : List Char) : Prop :=
  ∀ c ∈ s.head?, c = ',' ∨ c = ']' ∨ c = '}' ∨ c = '\n'

theorem follows_nil : Follows [] := by
  simp [Follows]

theorem follows_cons {c : Char} {s : List Char} :
    Follows (c :: s) ↔ c = ',' ∨ c = ']' ∨ c = '}' ∨ c = '\n' := by
  simp [Follows]

theorem hexValue?_hexDigit (n : Nat) : Token.hexValue? (hexDigit n) = some (n % 16) := by
  have hall : ∀ k, k < 16 → Token.hexValue? (Nat.digitChar k) = some k := by decide
  exact hall (n % 16) (Nat.mod_lt _ (by decide))

theorem unit?_control {n : Nat} (h : n < 0x20) :
    Token.unit? '0' '0' (hexDigit (n / 16)) (hexDigit n) = some n := by
  have hzero : Token.hexValue? '0' = some 0 := by decide
  simp only [Token.unit?, hzero, hexValue?_hexDigit, bind, Option.bind, pure]
  congr 1
  omega

theorem ne_of_shortEscape?_eq_none {c : Char} (h : shortEscape? c = none) : c ≠ '"' ∧ c ≠ '\\' := by
  constructor <;> rintro rfl <;> cases h

theorem keepString_escaped (c : Char) (rest : List Char) :
    Token.keepString (escaped c ++ rest) =
      (Token.keepString rest).map fun (s, left) => (c :: s, left) := by
  unfold escaped
  cases h : shortEscape? c with
  | some e =>
    unfold shortEscape? at h
    split at h <;> cases h <;> rfl
  | none =>
    by_cases hc : c.toNat < 0x20
    · rw [if_pos hc]
      have hunit := unit?_control hc
      have htrailing : Token.isTrailingSurrogate c.toNat = false := by
        simp [Token.isTrailingSurrogate]
        omega
      have hleading : Token.isLeadingSurrogate c.toNat = false := by
        simp [Token.isLeadingSurrogate]
        omega
      simp only [List.cons_append, List.nil_append]
      rw [Token.keepString]
      simp [hunit, htrailing, hleading, Char.ofNat_toNat]
    · obtain ⟨hquote, hslash⟩ := ne_of_shortEscape?_eq_none h
      rw [if_neg hc, List.singleton_append]
      rw [Token.keepString, if_neg hc] <;> simp [hquote, hslash]

theorem skipString_escaped (c : Char) (rest : List Char) :
    Token.skipString (escaped c ++ rest) = Token.skipString rest := by
  unfold escaped
  cases h : shortEscape? c with
  | some e =>
    unfold shortEscape? at h
    split at h <;> cases h <;> rfl
  | none =>
    by_cases hc : c.toNat < 0x20
    · rw [if_pos hc]
      simp only [List.cons_append, List.nil_append]
      rw [Token.skipString, unit?_control hc]
      rfl
    · obtain ⟨hquote, hslash⟩ := ne_of_shortEscape?_eq_none h
      rw [if_neg hc, List.singleton_append]
      rw [Token.skipString, if_neg hc] <;> simp [hquote, hslash]

theorem keepString_quoted (s rest : List Char) :
    Token.keepString (s.flatMap escaped ++ '"' :: rest) = .ok (s, rest) := by
  induction s with
  | nil => rfl
  | cons c s ih =>
    rw [List.flatMap_cons, List.append_assoc, keepString_escaped, ih]
    rfl

theorem skipString_quoted (s rest : List Char) :
    Token.skipString (s.flatMap escaped ++ '"' :: rest) = .ok rest := by
  induction s with
  | nil => rfl
  | cons c s ih => rw [List.flatMap_cons, List.append_assoc, skipString_escaped, ih]

theorem quoted_append (s : String) (rest : List Char) :
    quoted s ++ rest = '"' :: (s.toList.flatMap escaped ++ '"' :: rest) := by
  simp [quoted]

theorem quoted_append_inj {a b : String} {s t : List Char} (h : quoted a ++ s = quoted b ++ t) :
    a = b ∧ s = t := by
  rw [quoted_append, quoted_append] at h
  have hread := congrArg Token.keepString (List.cons.inj h).2
  rw [keepString_quoted, keepString_quoted] at hread
  have heq := Prod.mk.inj (Except.ok.inj hread)
  exact ⟨String.toList_injective heq.1, heq.2⟩

theorem isDigit_of_mem_toDigits {n : Nat} {c : Char} (h : c ∈ Nat.toDigits 10 n) :
    c.isDigit = true :=
  Nat.isDigit_of_mem_toDigits (by decide) (by decide) h

theorem not_isDigit_of_follows {c : Char} {s : List Char} (h : Follows (c :: s)) :
    c.isDigit = false := by
  rcases follows_cons.mp h with rfl | rfl | rfl | rfl <;> decide

theorem takeWhile_digits {ds s : List Char} (hd : ∀ c ∈ ds, c.isDigit = true) (hs : Follows s) :
    (ds ++ s).takeWhile Char.isDigit = ds := by
  rw [List.takeWhile_append_of_pos hd]
  cases s with
  | nil => simp
  | cons c s => simp [not_isDigit_of_follows hs]

theorem dropWhile_digits {ds s : List Char} (hd : ∀ c ∈ ds, c.isDigit = true) (hs : Follows s) :
    (ds ++ s).dropWhile Char.isDigit = s := by
  rw [List.dropWhile_append_of_pos hd]
  cases s with
  | nil => simp
  | cons c s => simp [not_isDigit_of_follows hs]

theorem toDigits_append_inj {m n : Nat} {s t : List Char} (hs : Follows s) (ht : Follows t)
    (h : Nat.toDigits 10 m ++ s = Nat.toDigits 10 n ++ t) : m = n ∧ s = t := by
  have hm : ∀ c ∈ Nat.toDigits 10 m, c.isDigit = true := fun c => isDigit_of_mem_toDigits
  have hn : ∀ c ∈ Nat.toDigits 10 n, c.isDigit = true := fun c => isDigit_of_mem_toDigits
  have hdigits : Nat.toDigits 10 m = Nat.toDigits 10 n := by
    rw [← takeWhile_digits hm hs, h, takeWhile_digits hn ht]
  have hvalue : m = n := by
    rw [← Nat.ofDigitChars_ten_toDigits (n := m), hdigits, Nat.ofDigitChars_ten_toDigits]
  exact ⟨hvalue, List.append_cancel_left (hdigits ▸ h)⟩

theorem minus_ne_toDigits (n : Nat) (s t : List Char) : '-' :: s ≠ Nat.toDigits 10 n ++ t := by
  intro h
  cases hd : Nat.toDigits 10 n with
  | nil => exact Nat.toDigits_ne_nil hd
  | cons c ds =>
    have hc : c.isDigit = true := isDigit_of_mem_toDigits (by rw [hd]; exact List.mem_cons_self)
    rw [hd] at h
    rw [← (List.cons.inj h).1] at hc
    exact absurd hc (by decide)

theorem integerText_append_inj {m n : Int} {s t : List Char} (hs : Follows s) (ht : Follows t)
    (h : integerText m ++ s = integerText n ++ t) : m = n ∧ s = t := by
  cases m with
  | ofNat m =>
    cases n with
    | ofNat n =>
      obtain ⟨rfl, rfl⟩ := toDigits_append_inj hs ht h
      exact ⟨rfl, rfl⟩
    | negSucc n => exact absurd h.symm (minus_ne_toDigits m _ _)
  | negSucc m =>
    cases n with
    | ofNat n => exact absurd h (minus_ne_toDigits n _ _)
    | negSucc n =>
      obtain ⟨he, rfl⟩ := toDigits_append_inj hs ht (List.cons.inj h).2
      exact ⟨by omega, rfl⟩

end ImportLedger.Json
