import ImportLedger.Proofs.JsonLexemes
import ImportLedger.Proofs.JsonValues

/-! Written scalars as tokens: each is one token, and its content is what was written. -/

namespace ImportLedger.Json

theorem Token.ofText_cons {c : Char} (h : Token.isSpace c = false) (rest : List Char) :
    Token.ofText (c :: rest) = (Token.begun c rest).1 :: Token.ofText (Token.begun c rest).2 := by
  rw [Token.ofText, if_neg (by simp [h])]

theorem stringToken_quoted (s rest : List Char) :
    Token.stringToken (s.flatMap escaped ++ '"' :: rest) =
      (.string (.ok (String.ofList s)) (.ok ()), rest) := by
  simp only [Token.stringToken, keepString_quoted, skipString_quoted]
  rfl

theorem ofText_quoted (s : String) (rest : List Char) :
    Token.ofText (quoted s ++ rest) = .string (.ok s) (.ok ()) :: Token.ofText rest := by
  have hbegun : Token.begun '"' (s.toList.flatMap escaped ++ '"' :: rest) =
      (.string (.ok s) (.ok ()), rest) := by
    rw [Token.begun, stringToken_quoted, String.ofList_toList]
  rw [quoted_append, Token.ofText_cons (by decide), hbegun]

theorem wordToken_append (v : Json) (word rest : List Char) :
    Token.wordToken v word (word ++ rest) = (.scalar (.ok v) (.ok ()), rest) := by
  induction word with
  | nil => rfl
  | cons c word ih => simp [Token.wordToken, ih]

theorem ofText_word {v : Json} {c : Char} {word : List Char} (hspace : Token.isSpace c = false)
    (hbegun : ∀ rest, Token.begun c rest = Token.wordToken v word rest) (rest : List Char) :
    Token.ofText (c :: word ++ rest) = .scalar (.ok v) (.ok ()) :: Token.ofText rest := by
  rw [List.cons_append, Token.ofText_cons hspace, hbegun, wordToken_append]

theorem digit_append_le (ds : List Char) (n : Nat) : n ≤ Nat.ofDigitChars 10 ds n := by
  rw [Nat.ofDigitChars_eq_ofDigitChars_zero]
  have hpos : 0 < 10 ^ ds.length := Nat.pow_pos (by decide)
  have hle : n ≤ 10 ^ ds.length * n := Nat.le_mul_of_pos_left n hpos
  omega

theorem absorb_of_lt {ds : List Char} {n : Nat}
    (h : Nat.ofDigitChars 10 ds n < Numeral.wordBound) :
    Numeral.absorb n ds = (Nat.ofDigitChars 10 ds n, []) := by
  induction ds generalizing n with
  | nil => rfl
  | cons c ds ih =>
    rw [Nat.ofDigitChars_cons] at h ⊢
    have hn := Nat.lt_of_le_of_lt (digit_append_le ds _) h
    rw [Numeral.absorb, Numeral.digitValue, if_pos hn, ih h]

theorem absorb_toDigits {n : Nat} (h : n < Numeral.wordBound) :
    Numeral.absorb 0 (Nat.toDigits 10 n) = (n, []) := by
  have hread : Nat.ofDigitChars 10 (Nat.toDigits 10 n) 0 = n := Nat.ofDigitChars_ten_toDigits
  rw [absorb_of_lt (by rwa [hread]), hread]

theorem toDigits_ne_zero_cons (n : Nat) (c : Char) (s : List Char) :
    Nat.toDigits 10 n ≠ '0' :: c :: s := by
  induction n using Nat.strongRecOn generalizing c s with
  | ind n ih =>
    intro h
    by_cases hn : n < 10
    · rw [Nat.toDigits_of_lt_base hn] at h
      exact absurd (congrArg List.length h) (by simp)
    · rw [Nat.toDigits_of_base_le (by decide) (by omega)] at h
      cases hd : Nat.toDigits 10 (n / 10) with
      | nil => exact Nat.toDigits_ne_nil hd
      | cons d ds =>
        rw [hd] at h
        obtain rfl := (List.cons.inj h).1
        cases ds with
        | nil =>
          have hread := congrArg (fun l => Nat.ofDigitChars 10 l 0) hd
          simp only [Nat.ofDigitChars_ten_toDigits] at hread
          have hzero : Nat.ofDigitChars 10 ['0'] 0 = 0 := by decide
          omega
        | cons d' ds => exact ih (n / 10) (by omega) d' ds hd

theorem fraction_of_follows {s : List Char} (h : Follows s) : Token.fraction s = .ok ([], s) := by
  cases s with
  | nil => rfl
  | cons c s => rcases follows_cons.mp h with rfl | rfl | rfl | rfl <;> rfl

theorem exponent_of_follows {s : List Char} (h : Follows s) : Token.exponent s = .ok (none, s) := by
  cases s with
  | nil => rfl
  | cons c s => rcases follows_cons.mp h with rfl | rfl | rfl | rfl <;> rfl

theorem numberToken_toDigits {negative : Bool} {n : Nat} {v : Json} {rest : List Char}
    (hv : Numeral.value? ⟨negative, Nat.toDigits 10 n, [], none⟩ = some v) (hrest : Follows rest) :
    Token.numberToken negative (Nat.toDigits 10 n ++ rest) = (.scalar (.ok v) (.ok ()), rest) := by
  have hdigits : ∀ c ∈ Nat.toDigits 10 n, c.isDigit = true := fun c => isDigit_of_mem_toDigits
  rw [Token.numberToken, takeWhile_digits hdigits hrest, dropWhile_digits hdigits hrest]
  split
  · rename_i h
    exact absurd h Nat.toDigits_ne_nil
  · rename_i h
    exact absurd h (toDigits_ne_zero_cons n _ _)
  · simp [fraction_of_follows hrest, exponent_of_follows hrest, hv]

theorem begun_of_isDigit {c : Char} (h : c.isDigit = true) (rest : List Char) :
    Token.begun c rest = Token.numberToken false (c :: rest) := by
  unfold Token.begun
  split <;> first | exact absurd h (by decide) | rw [if_pos h]

theorem isSpace_of_isDigit {c : Char} (h : c.isDigit = true) : Token.isSpace c = false := by
  rw [Bool.eq_false_iff]
  intro hspace
  simp only [Token.isSpace, Bool.or_eq_true, beq_iff_eq] at hspace
  obtain ((rfl | rfl) | rfl) | rfl := hspace <;> exact absurd h (by decide)

theorem ofText_integer {n : Int} (hn : InWord n) {rest : List Char} (hrest : Follows rest) :
    Token.ofText (integerText n ++ rest) =
      .scalar (.ok (.integer n)) (.ok ()) :: Token.ofText rest := by
  obtain ⟨hlow, hhigh⟩ := hn
  cases n with
  | ofNat m =>
    have hm : m < Numeral.wordBound := by simpa using hhigh
    have hv : Numeral.value? ⟨false, Nat.toDigits 10 m, [], none⟩ = some (.integer m) := by
      simp [Numeral.value?, absorb_toDigits hm]
    have hnumber := numberToken_toDigits hv hrest
    cases hd : Nat.toDigits 10 m with
    | nil => exact absurd hd Nat.toDigits_ne_nil
    | cons c ds =>
      have hc : c.isDigit = true := isDigit_of_mem_toDigits (by rw [hd]; exact List.mem_cons_self)
      rw [hd, List.cons_append] at hnumber
      rw [integerText, hd, List.cons_append, Token.ofText_cons (isSpace_of_isDigit hc),
        begun_of_isDigit hc, hnumber]
      rfl
  | negSucc m =>
    have hm : m + 1 ≤ Nat.pow 2 63 := by omega
    have hv : Numeral.value? ⟨true, Nat.toDigits 10 (m + 1), [], none⟩ =
        some (.integer (Int.negSucc m)) := by
      have hword : m + 1 < Numeral.wordBound := Nat.lt_of_le_of_lt hm (by decide)
      simp [Numeral.value?, absorb_toDigits hword, hm, Int.negSucc_eq]
    have hbegun : Token.begun '-' (Nat.toDigits 10 (m + 1) ++ rest) =
        (.scalar (.ok (.integer (Int.negSucc m))) (.ok ()), rest) := by
      rw [Token.begun, numberToken_toDigits hv hrest]
    rw [integerText, List.cons_append, Token.ofText_cons (by decide), hbegun]

end ImportLedger.Json
