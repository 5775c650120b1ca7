import ImportLedger.Proofs.JsonLexemes
import ImportLedger.Toml.Text

/-! Strings of configuration texts. Each character may stand for itself or be escaped in several
ways, and is read as what it was written for. -/

namespace ImportLedger.Toml

open Reader

/-- A character as it may stand in a string between double quotes. -/
inductive WrittenChar (c : Char) : List Char → Prop
  | plain (h : isPrintable c = true) (hquote : c ≠ '"') (hslash : c ≠ '\\') : WrittenChar c [c]
  | letter {d : Char} (h : simpleEscape? d = some c) : WrittenChar c ['\\', d]
  | short {digits : List Char} (hlen : digits.length = 4) (h : hexEscape? digits = some c) :
    WrittenChar c ('\\' :: 'u' :: digits)
  | long {digits : List Char} (hlen : digits.length = 8) (h : hexEscape? digits = some c) :
    WrittenChar c ('\\' :: 'U' :: digits)

/-- A string between double quotes, and what may stand behind the first of them. -/
inductive BasicString : List Char → List Char → Prop
  | nil : BasicString [] ['"']
  | cons {c : Char} {s t u : List Char} (hc : WrittenChar c t) (h : BasicString s u) :
    BasicString (c :: s) (t ++ u)

variable {c : Char} {s t : List Char}

theorem basicString_of_writtenChar (h : WrittenChar c t) (rest : List Char) :
    basicString (t ++ rest) = prepend c (basicString rest) := by
  cases h with
  | plain h hquote hslash =>
    rw [List.singleton_append, basicString.eq_5 _ _ hquote]
    · rw [if_pos h]
    all_goals simp [hslash]
  | @letter d h =>
    unfold simpleEscape? at h
    split at h <;> cases h <;> rfl
  | @short digits hlen h =>
    match digits, hlen with
    | [d₁, d₂, d₃, d₄], _ =>
      simp only [List.cons_append, List.nil_append]
      rw [basicString, h]
      rfl
  | @long digits hlen h =>
    match digits, hlen with
    | [d₁, d₂, d₃, d₄, d₅, d₆, d₇, d₈], _ =>
      simp only [List.cons_append, List.nil_append]
      rw [basicString, h]
      rfl

theorem basicString_append (h : BasicString s t) (rest : List Char) :
    basicString (t ++ rest) = some (s, rest) := by
  induction h with
  | nil => rfl
  | cons hc h ih =>
    rw [List.append_assoc, basicString_of_writtenChar hc, ih]
    rfl

theorem WrittenChar.exists_cons (h : WrittenChar c t) : ∃ d u, t = d :: u ∧ d ≠ '"' := by
  cases h with
  | plain h hquote hslash => exact ⟨c, [], rfl, hquote⟩
  | letter h => exact ⟨_, _, rfl, by decide⟩
  | short hlen h => exact ⟨_, _, rfl, by decide⟩
  | long hlen h => exact ⟨_, _, rfl, by decide⟩

/-- Only an empty string could be taken for the beginning of a long one. -/
theorem string_append (h : BasicString s t) {rest : List Char} (hrest : rest.head? ≠ some '"') :
    Reader.string ('"' :: (t ++ rest)) = some (String.ofList s, rest) := by
  have hshort : ∀ u, t ++ rest ≠ '"' :: '"' :: u := by
    intro u hu
    cases h with
    | nil =>
      obtain rfl := (List.cons.inj hu).2
      exact hrest rfl
    | cons hc h =>
      obtain ⟨d, v, rfl, hd⟩ := hc.exists_cons
      exact hd (List.cons.inj hu).1
  rw [Reader.string, basicString_append h]
  · rfl
  · exact hshort

/-- One way to write a character: controls, quotes and backslashes by their numbers. -/
def escaped (c : Char) : List Char :=
  if isPrintable c && c != '"' && c != '\\' then [c]
  else '\\' :: 'u' :: ['0', '0', Json.hexDigit (c.toNat / 16), Json.hexDigit c.toNat]

theorem hexEscape?_of_lt (h : c.toNat < 0x80) :
    hexEscape? ['0', '0', Json.hexDigit (c.toNat / 16), Json.hexDigit c.toNat] = some c := by
  have hzero : Json.Token.hexValue? '0' = some 0 := by decide
  have hnumber : hexNumber? ['0', '0', Json.hexDigit (c.toNat / 16), Json.hexDigit c.toNat] =
      some c.toNat := by
    simp only [hexNumber?, List.foldlM_cons, List.foldlM_nil, hzero, Json.hexValue?_hexDigit,
      Option.map_some, Option.bind_eq_bind, Option.bind_some, Option.pure_def]
    congr 1
    omega
  have hvalid : c.toNat.isValidChar := c.valid
  rw [hexEscape?, hnumber, Option.bind_eq_bind, Option.bind_some, scalarValue?, if_pos hvalid,
    Char.ofNat_toNat]

theorem writtenChar_escaped (c : Char) : WrittenChar c (escaped c) := by
  rw [escaped]
  split
  · rename_i h
    simp only [Bool.and_eq_true, bne_iff_ne] at h
    exact .plain h.1.1 h.1.2 h.2
  · rename_i h
    -- What is not written as itself lies below 0x80: two digits are enough.
    refine .short rfl (hexEscape?_of_lt ?_)
    refine Decidable.byContradiction fun hc => ?_
    have hquote : c ≠ '"' := by
      rintro rfl
      exact hc (by decide)
    have hslash : c ≠ '\\' := by
      rintro rfl
      exact hc (by decide)
    have hprint : isPrintable c = true := by
      simp only [isPrintable, Bool.or_eq_true, Bool.and_eq_true, decide_eq_true_eq, bne_iff_ne]
      omega
    exact h (by simp [hprint, hquote, hslash])

/-- Every string can be written. -/
theorem basicString_escaped (s : List Char) : BasicString s (s.flatMap escaped ++ ['"']) := by
  induction s with
  | nil => exact .nil
  | cons c s ih =>
    rw [List.flatMap_cons, List.append_assoc]
    exact .cons (writtenChar_escaped c) ih

end ImportLedger.Toml
