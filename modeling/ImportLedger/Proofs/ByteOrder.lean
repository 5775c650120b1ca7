import ImportLedger.Text.Utf8

/-! The order of characters is the order of the bytes that they are encoded in. -/

namespace ImportLedger.Text.Utf8

theorem cons_lt_cons_of_lt {m n : Nat} (h : m < n) (hn : n < 256) (s t : Bytes) :
    UInt8.ofNat m :: s < UInt8.ofNat n :: t := by
  have hm : m < 256 := Nat.lt_trans h hn
  refine List.cons_lt_cons_iff.mpr (.inl ?_)
  rw [UInt8.lt_iff_toNat_lt, UInt8.toNat_ofNat_of_lt' hm, UInt8.toNat_ofNat_of_lt' hn]
  exact h

theorem cons_lt_cons_of_eq {m n : Nat} (h : m = n) {s t : Bytes} (hst : s < t) :
    UInt8.ofNat m :: s < UInt8.ofNat n :: t :=
  List.cons_lt_cons_iff.mpr (.inr ⟨congrArg _ h, hst⟩)

/-- All bytes of a sequence but the first hold six bits each. -/
theorem lt_of_sextets {m n : Nat} (h : m < n) :
    m / 64 < n / 64 ∨ m / 64 = n / 64 ∧ m % 64 < n % 64 := by
  omega

/-- The bytes of two characters differ before either sequence ends. -/
theorem encodeChar_append_lt {c d : Char} (h : c < d) (s t : Bytes) :
    String.utf8EncodeChar c ++ s < String.utf8EncodeChar d ++ t := by
  have hlt : c.val.toNat < d.val.toNat := h
  have hd : d.val.toNat < 0x110000 := by
    have hvalid := d.valid
    simp only [UInt32.isValidChar, Nat.isValidChar] at hvalid
    omega
  rw [String.utf8EncodeChar.eq_1, String.utf8EncodeChar.eq_1]
  generalize c.val.toNat = m at *
  generalize d.val.toNat = n at *
  have htwelve (k : Nat) : k / 4096 = k / 64 / 64 := by omega
  have heighteen (k : Nat) : k / 262144 = k / 64 / 64 / 64 := by omega
  simp only [htwelve, heighteen]
  -- The first byte tells how long a sequence is, so only sequences of one length go on.
  by_cases hn1 : n ≤ 127
  · rw [if_pos hn1, if_pos (by omega)]
    exact cons_lt_cons_of_lt (by omega) (by omega) _ _
  by_cases hn2 : n ≤ 2047
  · rw [if_neg hn1, if_pos hn2]
    by_cases hm1 : m ≤ 127
    · rw [if_pos hm1]
      exact cons_lt_cons_of_lt (by omega) (by omega) _ _
    rw [if_neg hm1, if_pos (by omega)]
    rcases lt_of_sextets hlt with h | ⟨h, h'⟩
    · exact cons_lt_cons_of_lt (by omega) (by omega) _ _
    · refine cons_lt_cons_of_eq (by rw [h]) ?_
      exact cons_lt_cons_of_lt (by omega) (by omega) _ _
  by_cases hn3 : n ≤ 65535
  · rw [if_neg hn1, if_neg hn2, if_pos hn3]
    by_cases hm1 : m ≤ 127
    · rw [if_pos hm1]
      exact cons_lt_cons_of_lt (by omega) (by omega) _ _
    by_cases hm2 : m ≤ 2047
    · rw [if_neg hm1, if_pos hm2]
      exact cons_lt_cons_of_lt (by omega) (by omega) _ _
    rw [if_neg hm1, if_neg hm2, if_pos (by omega)]
    rcases lt_of_sextets hlt with h | ⟨h, h'⟩
    · rcases lt_of_sextets h with h | ⟨h, h'⟩
      · exact cons_lt_cons_of_lt (by omega) (by omega) _ _
      · refine cons_lt_cons_of_eq (by rw [h]) ?_
        exact cons_lt_cons_of_lt (by omega) (by omega) _ _
    · refine cons_lt_cons_of_eq (by rw [h]) (cons_lt_cons_of_eq (by rw [h]) ?_)
      exact cons_lt_cons_of_lt (by omega) (by omega) _ _
  rw [if_neg hn1, if_neg hn2, if_neg hn3]
  by_cases hm1 : m ≤ 127
  · rw [if_pos hm1]
    exact cons_lt_cons_of_lt (by omega) (by omega) _ _
  by_cases hm2 : m ≤ 2047
  · rw [if_neg hm1, if_pos hm2]
    exact cons_lt_cons_of_lt (by omega) (by omega) _ _
  by_cases hm3 : m ≤ 65535
  · rw [if_neg hm1, if_neg hm2, if_pos hm3]
    exact cons_lt_cons_of_lt (by omega) (by omega) _ _
  rw [if_neg hm1, if_neg hm2, if_neg hm3]
  rcases lt_of_sextets hlt with h | ⟨h, h'⟩
  · rcases lt_of_sextets h with h | ⟨h, h'⟩
    · rcases lt_of_sextets h with h | ⟨h, h'⟩
      · exact cons_lt_cons_of_lt (by omega) (by omega) _ _
      · refine cons_lt_cons_of_eq (by rw [h]) ?_
        exact cons_lt_cons_of_lt (by omega) (by omega) _ _
    · refine cons_lt_cons_of_eq (by rw [h]) (cons_lt_cons_of_eq (by rw [h]) ?_)
      exact cons_lt_cons_of_lt (by omega) (by omega) _ _
  · refine cons_lt_cons_of_eq (by rw [h]) (cons_lt_cons_of_eq (by rw [h])
      (cons_lt_cons_of_eq (by rw [h]) ?_))
    exact cons_lt_cons_of_lt (by omega) (by omega) _ _

/-- Texts stand in the order of their bytes. -/
theorem encode_lt {s t : List Char} (h : s < t) : encode s < encode t := by
  induction h with
  | nil =>
    rename_i d t
    rw [encode, encode, List.flatMap_nil, List.flatMap_cons]
    obtain ⟨b, r, hb⟩ := List.exists_cons_of_ne_nil (String.utf8EncodeChar_ne_nil (c := d))
    rw [hb]
    exact List.nil_lt_cons _ _
  | rel hcd => exact encodeChar_append_lt hcd _ _
  | cons _ ih =>
    exact List.append_left_lt ih

end ImportLedger.Text.Utf8
