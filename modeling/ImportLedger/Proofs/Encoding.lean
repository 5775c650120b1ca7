import ImportLedger.Text.Utf8
import Mathlib.Data.List.Basic

/-! Decoding what was encoded. The bytes of a character are read back as that character, and a byte
below 0x80 stands in an encoded text where its character stands. -/

namespace ImportLedger.Text.Utf8

section Bytes

variable {n : Nat}

theorem toNat_ofNat (h : n < 256) : (UInt8.ofNat n).toNat = n := UInt8.toNat_ofNat_of_lt' h

theorem leading?_ascii (h : n < 0x80) : leading? (UInt8.ofNat n) = some ⟨n, []⟩ := by
  have hn := toNat_ofNat (n := n) (by omega)
  have hlt : UInt8.ofNat n < 0x80 := by
    rw [UInt8.lt_iff_toNat_lt, hn]
    exact h
  rw [leading?, if_pos hlt, hn]

theorem leading?_of_le (h : 0xc2 ≤ n) (h' : n < 0xf5) : leading? (UInt8.ofNat n) =
    if n < 0xe0 then some ⟨n % 32, [continuation]⟩
    else if n < 0xf0 then
      some ⟨n % 16, [if n = 0xe0 then (0xa0, 0xbf) else if n = 0xed then (0x80, 0x9f)
        else continuation, continuation]⟩
    else
      some ⟨n % 8, [if n = 0xf0 then (0x90, 0xbf) else if n = 0xf4 then (0x80, 0x8f)
        else continuation, continuation, continuation]⟩ := by
  have hn := toNat_ofNat (n := n) (by omega)
  simp only [leading?, UInt8.lt_iff_toNat_lt, ← UInt8.toNat_inj, hn, UInt8.reduceToNat]
  grind

end Bytes

section Steps

variable {bits : Nat} {bound : UInt8 × UInt8} {bounds : List (UInt8 × UInt8)} {b : UInt8}
  {rest : Bytes}

theorem parts_of_leading (h : leading? b = some ⟨bits, bounds⟩) (hne : bounds ≠ []) :
    parts none (b :: rest) = parts (some ⟨bits, bounds⟩) rest := by
  cases bounds with
  | nil => exact absurd rfl hne
  | cons bound bounds => simp [parts, step, h]

theorem parts_of_within (h : bound.1 ≤ b ∧ b ≤ bound.2) (hne : bounds ≠ []) :
    parts (some ⟨bits, bound :: bounds⟩) (b :: rest) =
      parts (some ⟨64 * bits + b.toNat % 64, bounds⟩) rest := by
  cases bounds with
  | nil => exact absurd rfl hne
  | cons next bounds => simp [parts, step, h]

theorem parts_of_last (h : bound.1 ≤ b ∧ b ≤ bound.2) :
    parts (some ⟨bits, [bound]⟩) (b :: rest) =
      some (Char.ofNat (64 * bits + b.toNat % 64)) :: parts none rest := by
  simp [parts, step, h]

end Steps

/-- A byte with six bits of a character, within the bounds that a sequence sets for it. -/
theorem within_ofNat {n : Nat} (low high : Nat) (hlow : low ≤ n) (hhigh : n ≤ high)
    (h : high < 256) :
    UInt8.ofNat low ≤ UInt8.ofNat n ∧ UInt8.ofNat n ≤ UInt8.ofNat high := by
  rw [UInt8.le_iff_toNat_le, UInt8.le_iff_toNat_le, toNat_ofNat (by omega), toNat_ofNat (by omega),
    toNat_ofNat (by omega)]
  exact ⟨hlow, hhigh⟩

theorem within_continuation (n : Nat) :
    continuation.1 ≤ UInt8.ofNat (n % 64 + 128) ∧ UInt8.ofNat (n % 64 + 128) ≤ continuation.2 :=
  within_ofNat 128 191 (by omega) (by omega) (by omega)

theorem toNat_sextet (n : Nat) : (UInt8.ofNat (n % 64 + 128)).toNat % 64 = n % 64 := by
  rw [toNat_ofNat (by omega)]
  omega

/-- The second of three bytes keeps to the bounds that the first one sets. -/
theorem within_second_of_three {n : Nat} (h : 0x800 ≤ n) (hvalid : n < 0xd800 ∨ 0xdfff < n)
    (h' : n < 0x10000) {bound : UInt8 × UInt8}
    (hb : bound = if n / 4096 % 16 + 224 = 0xe0 then (0xa0, 0xbf)
      else if n / 4096 % 16 + 224 = 0xed then (0x80, 0x9f) else continuation) :
    bound.1 ≤ UInt8.ofNat (n / 64 % 64 + 128) ∧ UInt8.ofNat (n / 64 % 64 + 128) ≤ bound.2 := by
  subst hb
  split
  · exact within_ofNat 160 191 (by omega) (by omega) (by omega)
  · split
    · exact within_ofNat 128 159 (by omega) (by omega) (by omega)
    · exact within_continuation _

theorem within_second_of_four {n : Nat} (h : 0x10000 ≤ n) (h' : n < 0x110000)
    {bound : UInt8 × UInt8}
    (hb : bound = if n / 262144 % 8 + 240 = 0xf0 then (0x90, 0xbf)
      else if n / 262144 % 8 + 240 = 0xf4 then (0x80, 0x8f) else continuation) :
    bound.1 ≤ UInt8.ofNat (n / 4096 % 64 + 128) ∧ UInt8.ofNat (n / 4096 % 64 + 128) ≤ bound.2 := by
  subst hb
  split
  · exact within_ofNat 144 191 (by omega) (by omega) (by omega)
  · split
    · exact within_ofNat 128 143 (by omega) (by omega) (by omega)
    · exact within_continuation _

theorem parts_encodeChar (c : Char) (rest : Bytes) :
    parts none (String.utf8EncodeChar c ++ rest) = some c :: parts none rest := by
  have hvalid : c.val.toNat < 0xd800 ∨ 0xdfff < c.val.toNat ∧ c.val.toNat < 0x110000 := c.valid
  have hc : Char.ofNat c.val.toNat = c := Char.ofNat_toNat c
  rw [String.utf8EncodeChar.eq_1]
  generalize c.val.toNat = n at *
  -- One case for each length of a sequence: its first byte, then those that go on with it.
  by_cases h1 : n ≤ 127
  · rw [if_pos h1, List.singleton_append]
    simp [parts, step, leading?_ascii (n := n) (by omega), hc]
  by_cases h2 : n ≤ 2047
  · have hlead := leading?_of_le (n := n / 64 % 32 + 192) (by omega) (by omega)
    rw [if_pos (by omega)] at hlead
    rw [if_neg h1, if_pos h2, List.cons_append, List.singleton_append,
      parts_of_leading hlead (by simp), parts_of_last (within_continuation n), toNat_sextet]
    have hbits : 64 * ((n / 64 % 32 + 192) % 32) + n % 64 = n := by omega
    rw [hbits, hc]
  by_cases h3 : n ≤ 65535
  · have hlead := leading?_of_le (n := n / 4096 % 16 + 224) (by omega) (by omega)
    rw [if_neg (by omega), if_pos (by omega)] at hlead
    have hsecond := within_second_of_three (n := n) (by omega) (by omega) (by omega) rfl
    rw [if_neg h1, if_neg h2, if_pos h3, List.cons_append, List.cons_append, List.singleton_append,
      parts_of_leading hlead (by simp), parts_of_within hsecond (by simp),
      parts_of_last (within_continuation n), toNat_sextet, toNat_sextet]
    have hbits : 64 * (64 * ((n / 4096 % 16 + 224) % 16) + n / 64 % 64) + n % 64 = n := by omega
    rw [hbits, hc]
  · have hlead := leading?_of_le (n := n / 262144 % 8 + 240) (by omega) (by omega)
    rw [if_neg (by omega), if_neg (by omega)] at hlead
    have hsecond := within_second_of_four (n := n) (by omega) (by omega) rfl
    rw [if_neg h1, if_neg h2, if_neg h3, List.cons_append, List.cons_append, List.cons_append,
      List.singleton_append, parts_of_leading hlead (by simp), parts_of_within hsecond (by simp),
      parts_of_within (within_continuation (n / 64)) (by simp),
      parts_of_last (within_continuation n), toNat_sextet, toNat_sextet, toNat_sextet]
    have hbits : 64 * (64 * (64 * ((n / 262144 % 8 + 240) % 8) + n / 4096 % 64) + n / 64 % 64) +
        n % 64 = n := by omega
    rw [hbits, hc]

theorem parts_encode (s : List Char) : parts none (encode s) = s.map some := by
  induction s with
  | nil => rfl
  | cons c s ih =>
    rw [encode, List.flatMap_cons, parts_encodeChar]
    exact congrArg _ ih

theorem decode?_encode (s : List Char) : decode? (encode s) = some s := by
  rw [decode?, parts_encode]
  induction s with
  | nil => rfl
  | cons c s ih => simp [ih]

theorem encode_append (s t : List Char) : encode (s ++ t) = encode s ++ encode t :=
  List.flatMap_append

theorem encode_injective {s t : List Char} (h : encode s = encode t) : s = t := by
  have hh := decode?_encode s
  rw [h, decode?_encode] at hh
  exact (Option.some.inj hh).symm

/-- A byte below 0x80 stands for its own character alone. -/
theorem mem_encodeChar_of_ascii {c d : Char} (h : d.toNat < 0x80) :
    UInt8.ofNat d.toNat ∈ String.utf8EncodeChar c ↔ d = c := by
  have hne {n : Nat} (hn : 0x80 ≤ n) (hn' : n < 256) : UInt8.ofNat d.toNat ≠ UInt8.ofNat n := by
    intro he
    have hh := congrArg UInt8.toNat he
    rw [toNat_ofNat (by omega), toNat_ofNat hn'] at hh
    omega
  have hc : c.val.toNat = c.toNat := rfl
  rw [← Char.toNat_inj, String.utf8EncodeChar.eq_1, hc]
  generalize c.toNat = n
  split
  · rw [List.mem_singleton, ← UInt8.toNat_inj, toNat_ofNat (by omega), toNat_ofNat (by omega)]
  · have hn : d.toNat ≠ n := by omega
    simp only [hn, iff_false]
    split
    · simp only [List.mem_cons, List.not_mem_nil, or_false, not_or]
      exact ⟨hne (by omega) (by omega), hne (by omega) (by omega)⟩
    · split
      · simp only [List.mem_cons, List.not_mem_nil, or_false, not_or]
        exact ⟨hne (by omega) (by omega), hne (by omega) (by omega), hne (by omega) (by omega)⟩
      · simp only [List.mem_cons, List.not_mem_nil, or_false, not_or]
        exact ⟨hne (by omega) (by omega), hne (by omega) (by omega), hne (by omega) (by omega),
          hne (by omega) (by omega)⟩

theorem mem_encode_of_ascii {d : Char} (h : d.toNat < 0x80) {s : List Char} :
    UInt8.ofNat d.toNat ∈ encode s ↔ d ∈ s := by
  rw [encode, List.mem_flatMap]
  constructor
  · rintro ⟨c, hc, hd⟩
    exact (mem_encodeChar_of_ascii h).mp hd ▸ hc
  · intro hd
    exact ⟨d, hd, (mem_encodeChar_of_ascii h).mpr rfl⟩

end ImportLedger.Text.Utf8
