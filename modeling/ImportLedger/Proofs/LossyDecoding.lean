import ImportLedger.Proofs.Encoding
import Mathlib.Data.List.Forall2

/-! What decoding makes of bytes that need not be text. The rule says nothing of how bytes are read:
a character stands where its bytes stand, and where no character's bytes stand, one replacement
character stands for the longest run of bytes there that could begin one. -/

namespace ImportLedger.Text.Utf8

/-- Whether bytes begin the bytes of some character, or are all of them. -/
def Initial (p : Bytes) : Prop := ∃ c, p <+: String.utf8EncodeChar c

/-- The bytes of characters, and a replacement character for each maximal part of the rest. -/
inductive Decodes : Bytes → List Char → Prop
  | nil : Decodes [] []
  | char {c : Char} {rest : Bytes} {s : List Char} (h : Decodes rest s) :
      Decodes (String.utf8EncodeChar c ++ rest) (c :: s)
  | replaced {p rest : Bytes} {s : List Char} (hp : p ≠ []) (hbegins : Initial p ∨ p.length = 1)
      (hnone : ∀ c, ¬ String.utf8EncodeChar c <+: p ++ rest)
      (hlongest : ∀ q, q <+: p ++ rest → Initial q → q.length ≤ p.length) (h : Decodes rest s) :
      Decodes (p ++ rest) (replacement :: s)

/-- Bytes that go on with a sequence, each within the bounds that are set for it. -/
abbrev Within (bounds : List (UInt8 × UInt8)) (bytes : Bytes) : Prop :=
  List.Forall₂ (fun bound b => bound.1 ≤ b ∧ b ≤ bound.2) bounds bytes

/-- The bits of a sequence after some more of its bytes. -/
def bitsAfter (bits : Nat) (bytes : Bytes) : Nat :=
  bytes.foldl (fun n b => 64 * n + b.toNat % 64) bits

section Characters

variable {a x y z : UInt8}

theorem ofNat_eq {n : Nat} {b : UInt8} (h : n = b.toNat) : UInt8.ofNat n = b := by
  rw [h, UInt8.ofNat_toNat]

theorem toNat_val_ofNat {n : Nat} (h : n < 0xd800 ∨ 0xdfff < n ∧ n < 0x110000) :
    (Char.ofNat n).val.toNat = n := by
  have hvalid : n.isValidChar := h
  rw [Char.ofNat, dif_pos hvalid]
  rfl

theorem encodeChar_one (ha : a.toNat < 0x80) :
    String.utf8EncodeChar (Char.ofNat a.toNat) = [a] := by
  rw [String.utf8EncodeChar.eq_1, toNat_val_ofNat (by omega), if_pos (by omega), ofNat_eq rfl]

theorem encodeChar_two (ha : 0xc2 ≤ a.toNat ∧ a.toNat < 0xe0)
    (hx : 0x80 ≤ x.toNat ∧ x.toNat ≤ 0xbf) :
    String.utf8EncodeChar (Char.ofNat (64 * (a.toNat % 32) + x.toNat % 64)) = [a, x] := by
  generalize hn : 64 * (a.toNat % 32) + x.toNat % 64 = n
  rw [String.utf8EncodeChar.eq_1, toNat_val_ofNat (by omega), if_neg (by omega),
    if_pos (by omega), ofNat_eq (b := a) (by omega), ofNat_eq (b := x) (by omega)]

/-- The second byte is neither of a shorter sequence nor of a surrogate. -/
theorem encodeChar_three (ha : 0xe0 ≤ a.toNat ∧ a.toNat < 0xf0)
    (hx : 0x80 ≤ x.toNat ∧ x.toNat ≤ 0xbf) (hlow : a.toNat = 0xe0 → 0xa0 ≤ x.toNat)
    (hhigh : a.toNat = 0xed → x.toNat ≤ 0x9f) (hy : 0x80 ≤ y.toNat ∧ y.toNat ≤ 0xbf) :
    String.utf8EncodeChar (Char.ofNat (64 * (64 * (a.toNat % 16) + x.toNat % 64) +
      y.toNat % 64)) = [a, x, y] := by
  generalize hn : 64 * (64 * (a.toNat % 16) + x.toNat % 64) + y.toNat % 64 = n
  rw [String.utf8EncodeChar.eq_1, toNat_val_ofNat (by omega), if_neg (by omega),
    if_neg (by omega), if_pos (by omega), ofNat_eq (b := a) (by omega),
    ofNat_eq (b := x) (by omega), ofNat_eq (b := y) (by omega)]

/-- The second byte is neither of a shorter sequence nor beyond the last character. -/
theorem encodeChar_four (ha : 0xf0 ≤ a.toNat ∧ a.toNat < 0xf5)
    (hx : 0x80 ≤ x.toNat ∧ x.toNat ≤ 0xbf) (hlow : a.toNat = 0xf0 → 0x90 ≤ x.toNat)
    (hhigh : a.toNat = 0xf4 → x.toNat ≤ 0x8f) (hy : 0x80 ≤ y.toNat ∧ y.toNat ≤ 0xbf)
    (hz : 0x80 ≤ z.toNat ∧ z.toNat ≤ 0xbf) :
    String.utf8EncodeChar (Char.ofNat (64 * (64 * (64 * (a.toNat % 8) + x.toNat % 64) +
      y.toNat % 64) + z.toNat % 64)) = [a, x, y, z] := by
  generalize hn : 64 * (64 * (64 * (a.toNat % 8) + x.toNat % 64) + y.toNat % 64) +
    z.toNat % 64 = n
  rw [String.utf8EncodeChar.eq_1, toNat_val_ofNat (by omega), if_neg (by omega),
    if_neg (by omega), if_neg (by omega), ofNat_eq (b := a) (by omega),
    ofNat_eq (b := x) (by omega), ofNat_eq (b := y) (by omega), ofNat_eq (b := z) (by omega)]

end Characters

section Sequences

variable {b x : UInt8} {bits : Nat} {bound : UInt8 × UInt8} {bounds : List (UInt8 × UInt8)}

theorem toNat_between :
    bound.1 ≤ x ∧ x ≤ bound.2 ↔ bound.1.toNat ≤ x.toNat ∧ x.toNat ≤ bound.2.toNat := by
  rw [UInt8.le_iff_toNat_le, UInt8.le_iff_toNat_le]

theorem toNat_continuation (h : continuation.1 ≤ x ∧ x ≤ continuation.2) :
    0x80 ≤ x.toNat ∧ x.toNat ≤ 0xbf := toNat_between.mp h

/-- The first of the bytes that go on may be bounded from one side for one or two leading bytes. -/
theorem toNat_second {n m m' : Nat} {low high : UInt8} (hlow : 0x80 ≤ low.toNat)
    (hhigh : high.toNat ≤ 0xbf) (hm : m ≠ m')
    (hx : (if n = m then (low, 0xbf) else if n = m' then (0x80, high) else continuation).1 ≤ x ∧
      x ≤ (if n = m then (low, 0xbf) else if n = m' then (0x80, high) else continuation).2) :
    (0x80 ≤ x.toNat ∧ x.toNat ≤ 0xbf) ∧ (n = m → low.toNat ≤ x.toNat) ∧
      (n = m' → x.toNat ≤ high.toNat) := by
  have hbounds := toNat_between.mp hx
  by_cases h : n = m
  · rw [if_pos h] at hbounds
    simp only [UInt8.reduceToNat] at hbounds
    omega
  · by_cases h' : n = m'
    · rw [if_neg h, if_pos h'] at hbounds
      simp only [UInt8.reduceToNat] at hbounds
      omega
    · rw [if_neg h, if_neg h'] at hbounds
      simp only [continuation, UInt8.reduceToNat] at hbounds
      omega

theorem leading?_eq_none (h : 0x80 ≤ b.toNat) (h' : b.toNat < 0xc2 ∨ 0xf5 ≤ b.toNat) :
    leading? b = none := by
  simp only [leading?, UInt8.lt_iff_toNat_lt, ← UInt8.toNat_inj, UInt8.reduceToNat]
  grind

/-- What has begun with a byte, and goes on within its bounds, is the bytes of the character that
its bits are. -/
theorem encodeChar_of_leading (h : leading? b = some ⟨bits, bounds⟩) {q : Bytes}
    (hq : Within bounds q) : String.utf8EncodeChar (Char.ofNat (bitsAfter bits q)) = b :: q := by
  by_cases hascii : b.toNat < 0x80
  · have hb := leading?_ascii hascii
    rw [UInt8.ofNat_toNat, h] at hb
    cases hb
    cases hq
    exact encodeChar_one hascii
  by_cases hrange : b.toNat < 0xc2 ∨ 0xf5 ≤ b.toNat
  · rw [leading?_eq_none (by omega) hrange] at h
    cases h
  have hb := leading?_of_le (n := b.toNat) (by omega) (by omega)
  rw [UInt8.ofNat_toNat, h] at hb
  split at hb
  · cases hb
    obtain _ | ⟨hx, _ | _⟩ := hq
    exact encodeChar_two (by omega) (toNat_continuation hx)
  split at hb
  · cases hb
    obtain _ | ⟨hx, _ | ⟨hy, _ | _⟩⟩ := hq
    obtain ⟨hsecond, hlow, hhigh⟩ := toNat_second (by decide) (by decide) (by decide) hx
    exact encodeChar_three (by omega) hsecond hlow hhigh (toNat_continuation hy)
  · cases hb
    obtain _ | ⟨hx, _ | ⟨hy, _ | ⟨hz, _ | _⟩⟩⟩ := hq
    obtain ⟨hsecond, hlow, hhigh⟩ := toNat_second (by decide) (by decide) (by decide) hx
    exact encodeChar_four (by omega) hsecond hlow hhigh (toNat_continuation hy)
      (toNat_continuation hz)

theorem le_of_leading (h : leading? b = some ⟨bits, bounds⟩) : ∀ c ∈ bounds, c.1 ≤ c.2 := by
  unfold leading? at h
  dsimp only at h
  split_ifs at h <;> cases h <;> simp [continuation]

/-- Any bytes that keep to the bounds so far can be gone on with to the end of a character. -/
theorem initial_of_within {front back : List (UInt8 × UInt8)} {q : Bytes}
    (h : leading? b = some ⟨bits, front ++ back⟩) (hq : Within front q) : Initial (b :: q) := by
  have hlows : Within back (back.map Prod.fst) := by
    refine List.forall₂_map_right_iff.mpr (List.forall₂_same.mpr fun c hc => ?_)
    exact ⟨UInt8.le_refl _, le_of_leading h c (List.mem_append_right _ hc)⟩
  have hbytes := encodeChar_of_leading h (List.rel_append hq hlows)
  exact ⟨_, back.map Prod.fst, hbytes.symm⟩

end Sequences

section Parts

variable {b : UInt8} {bits : Nat} {bound : UInt8 × UInt8} {front back bounds : List (UInt8 × UInt8)}
  {q rest : Bytes}

theorem parts_of_front (hq : Within front q) (hne : back ≠ []) (rest : Bytes) :
    parts (some ⟨bits, front ++ back⟩) (q ++ rest) =
      parts (some ⟨bitsAfter bits q, back⟩) rest := by
  induction hq generalizing bits with
  | nil => rfl
  | cons hx _ ih => exact (parts_of_within hx (by simp [hne])).trans ih

theorem parts_of_cut (h : ∀ x ∈ rest.head?, ¬ (bound.1 ≤ x ∧ x ≤ bound.2)) :
    parts (some ⟨bits, bound :: back⟩) rest = none :: parts none rest := by
  cases rest with
  | nil => rfl
  | cons x rest =>
    have hx := h x rfl
    simp [parts, step, hx]

theorem parts_of_no_leading (h : leading? b = none) (rest : Bytes) :
    parts none (b :: rest) = none :: parts none rest := by
  simp [parts, step, h]

/-- Bytes keep to bounds up to the last one, or up to one that the next byte does not keep to. -/
theorem exists_within (bounds : List (UInt8 × UInt8)) (rest : Bytes) :
    (∃ q r, rest = q ++ r ∧ Within bounds q) ∨
      ∃ front bound back q r, bounds = front ++ bound :: back ∧ rest = q ++ r ∧ Within front q ∧
        ∀ x ∈ r.head?, ¬ (bound.1 ≤ x ∧ x ≤ bound.2) := by
  induction bounds generalizing rest with
  | nil => exact .inl ⟨[], rest, rfl, .nil⟩
  | cons bound bounds ih =>
    by_cases h : ∀ x ∈ rest.head?, ¬ (bound.1 ≤ x ∧ x ≤ bound.2)
    · exact .inr ⟨[], bound, bounds, [], rest, rfl, rfl, .nil, h⟩
    · cases rest with
      | nil => exact absurd (fun x hx => by cases hx) h
      | cons x rest =>
        have hx : bound.1 ≤ x ∧ x ≤ bound.2 := by simpa using h
        rcases ih rest with ⟨q, r, rfl, hq⟩ | ⟨front, bound', back, q, r, rfl, rfl, hq, hr⟩
        · exact .inl ⟨x :: q, r, rfl, .cons hx hq⟩
        · exact .inr ⟨bound :: front, bound', back, x :: q, r, rfl, rfl, .cons hx hq, hr⟩

end Parts

/-- Where decoding gives a replacement, no character and no longer beginning of one stands. -/
theorem Decodes.of_cut {p rest : Bytes} {s : List Char} (hp : p ≠ [])
    (hbegins : Initial p ∨ p.length = 1) (hparts : ∃ l, parts none (p ++ rest) = none :: l)
    (hnext : ∀ x ∈ rest.head?, ∀ y, ∃ l, parts none (p ++ x :: y) = none :: l)
    (h : Decodes rest s) : Decodes (p ++ rest) (replacement :: s) := by
  have hchar {c : Char} {y : Bytes} {l : List (Option Char)}
      (hl : parts none (String.utf8EncodeChar c ++ y) = none :: l) : False := by
    rw [parts_encodeChar] at hl
    cases hl
  refine .replaced hp hbegins (fun c ⟨y, hy⟩ => ?_) (fun q hq ⟨c, u, hu⟩ => ?_) h
  · obtain ⟨l, hl⟩ := hparts
    rw [← hy] at hl
    exact hchar hl
  · by_contra hlen
    obtain ⟨t, rfl⟩ := List.prefix_of_prefix_length_le (List.prefix_append p rest) hq (by omega)
    have ht := (List.prefix_append_right_inj p).mp hq
    cases t with
    | nil => simp at hlen
    | cons x t =>
      obtain ⟨y, rfl⟩ := ht
      obtain ⟨l, hl⟩ := hnext x rfl (t ++ u)
      have hsplit : String.utf8EncodeChar c ++ [] = p ++ x :: (t ++ u) := by
        rw [List.append_nil, ← hu, List.append_assoc, List.cons_append]
      rw [← hsplit] at hl
      exact hchar hl

theorem decodes_decodeLossy (bytes : Bytes) : Decodes bytes (decodeLossy bytes) := by
  induction hn : bytes.length using Nat.strongRecOn generalizing bytes with
  | ind n ih =>
    cases bytes with
    | nil => exact .nil
    | cons b bytes =>
      have hrest {p r : Bytes} (hb : b :: bytes = p ++ r) (hp : p ≠ []) :
          Decodes r (decodeLossy r) := by
        have hlen := congrArg List.length hb
        rw [List.length_append, hn] at hlen
        have hpos := List.length_pos_iff.mpr hp
        exact ih _ (by omega) r rfl
      have hcut {p r : Bytes} (hb : b :: bytes = p ++ r) (hp : p ≠ [])
          (hbegins : Initial p ∨ p.length = 1)
          (hparts : parts none (p ++ r) = none :: parts none r)
          (hnext : ∀ x ∈ r.head?, ∀ y, ∃ l, parts none (p ++ x :: y) = none :: l) :
          Decodes (b :: bytes) (decodeLossy (b :: bytes)) := by
        have hd : decodeLossy (p ++ r) = replacement :: decodeLossy r := by
          rw [decodeLossy, hparts]
          rfl
        rw [hb, hd]
        exact .of_cut hp hbegins ⟨_, hparts⟩ hnext (hrest hb hp)
      have hwhole {c : Char} {r : Bytes} (hb : b :: bytes = String.utf8EncodeChar c ++ r) :
          Decodes (b :: bytes) (decodeLossy (b :: bytes)) := by
        have hne : String.utf8EncodeChar c ≠ [] := String.utf8EncodeChar_ne_nil
        have hd : decodeLossy (String.utf8EncodeChar c ++ r) = c :: decodeLossy r := by
          rw [decodeLossy, parts_encodeChar]
          rfl
        rw [hb, hd]
        exact .char (hrest hb hne)
      cases hlead : leading? b with
      | none =>
        have hstep := parts_of_no_leading hlead
        exact hcut (p := [b]) rfl (by simp) (.inr rfl) (hstep bytes) fun x _ y => ⟨_, hstep _⟩
      | some pending =>
        obtain ⟨bits, bounds⟩ := pending
        rcases exists_within bounds bytes with ⟨q, r, rfl, hq⟩ |
          ⟨front, bound, back, q, r, rfl, rfl, hq, hr⟩
        · exact hwhole (by rw [encodeChar_of_leading hlead hq, List.cons_append])
        · have hstep (y : Bytes) : parts none (b :: q ++ y) =
              parts (some ⟨bitsAfter bits q, bound :: back⟩) y := by
            rw [List.cons_append, parts_of_leading hlead (by simp), parts_of_front hq (by simp)]
          refine hcut (p := b :: q) rfl (by simp) (.inl (initial_of_within hlead hq)) ?_ ?_
          · rw [hstep, parts_of_cut hr]
          · intro x hx y
            rw [hstep, parts_of_cut (by simpa using hr x hx)]
            exact ⟨_, rfl⟩

theorem length_le_of_replaced {p rest q r : Bytes} (hbegins : Initial q ∨ q.length = 1)
    (heq : p ++ rest = q ++ r) (hp : p ≠ [])
    (hlongest : ∀ t, t <+: p ++ rest → Initial t → t.length ≤ p.length) : q.length ≤ p.length := by
  rcases hbegins with hinitial | hone
  · exact hlongest q ⟨r, heq.symm⟩ hinitial
  · have hpos := List.length_pos_iff.mpr hp
    omega

theorem Decodes.unique {bytes : Bytes} {s t : List Char} (hs : Decodes bytes s)
    (ht : Decodes bytes t) : s = t := by
  induction hs generalizing t with
  | nil =>
    generalize hb : ([] : Bytes) = bytes at ht
    cases ht with
    | nil => rfl
    | char => exact absurd (List.append_eq_nil_iff.mp hb.symm).1 String.utf8EncodeChar_ne_nil
    | replaced hp => exact absurd (List.append_eq_nil_iff.mp hb.symm).1 hp
  | @char c rest s hs ih =>
    generalize hb : String.utf8EncodeChar c ++ rest = bytes at ht
    cases ht with
    | nil => exact absurd (List.append_eq_nil_iff.mp hb).1 String.utf8EncodeChar_ne_nil
    | @char d rest' t ht =>
      have hparts := parts_encodeChar c rest
      rw [hb, parts_encodeChar] at hparts
      obtain rfl := Option.some.inj (List.cons.inj hparts).1
      obtain rfl := List.append_cancel_left hb
      rw [ih ht]
    | replaced hp hbegins hnone => exact absurd ⟨rest, hb⟩ (hnone c)
  | @replaced p rest s hp hbegins hnone hlongest hs ih =>
    generalize hb : p ++ rest = bytes at ht
    cases ht with
    | nil => exact absurd (List.append_eq_nil_iff.mp hb).1 hp
    | @char d rest' t ht => exact absurd ⟨rest', hb.symm⟩ (hnone d)
    | @replaced q rest' t hq hbegins' hnone' hlongest' ht =>
      have hle := length_le_of_replaced hbegins' hb hp hlongest
      have hge := length_le_of_replaced hbegins hb.symm hq hlongest'
      obtain ⟨rfl, rfl⟩ := List.append_inj hb (by omega)
      rw [ih ht]

/-- Decoding follows the rule and no other text does. -/
theorem decodes_iff {bytes : Bytes} {s : List Char} : Decodes bytes s ↔ decodeLossy bytes = s :=
  ⟨fun h => (decodes_decodeLossy bytes).unique h, fun h => h ▸ decodes_decodeLossy bytes⟩

theorem decodeLossy_encode (s : List Char) : decodeLossy (encode s) = s := by
  rw [decodeLossy, parts_encode, List.map_map]
  exact List.map_id'' (fun _ => rfl) s

end ImportLedger.Text.Utf8
