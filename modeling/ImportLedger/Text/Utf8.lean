/-! Characters and bytes. Decoding reads one byte at a time; a byte that cannot go on a sequence
ends it, so bytes below 0x80 always stand for themselves. -/

namespace ImportLedger.Text.Utf8

abbrev Bytes := List UInt8

def encode (s : List Char) : Bytes := s.flatMap String.utf8EncodeChar

/-- A sequence that has begun: the bits read so far, and the bounds of the bytes to come. -/
structure Pending where
  bits : Nat
  bounds : List (UInt8 × UInt8)

def continuation : UInt8 × UInt8 := (0x80, 0xbf)

/-- What a byte begins: a sequence, or nothing. The bounds of the second byte leave out what could
be written shorter, surrogates, and what lies beyond the last code point. -/
def leading? (b : UInt8) : Option Pending :=
  let bits (bound : Nat) := b.toNat % bound
  if b < 0x80 then some ⟨b.toNat, []⟩
  else if b < 0xc2 then none
  else if b < 0xe0 then some ⟨bits 32, [continuation]⟩
  else if b = 0xe0 then some ⟨bits 16, [(0xa0, 0xbf), continuation]⟩
  else if b = 0xed then some ⟨bits 16, [(0x80, 0x9f), continuation]⟩
  else if b < 0xf0 then some ⟨bits 16, [continuation, continuation]⟩
  else if b = 0xf0 then some ⟨bits 8, [(0x90, 0xbf), continuation, continuation]⟩
  else if b < 0xf4 then some ⟨bits 8, [continuation, continuation, continuation]⟩
  else if b = 0xf4 then some ⟨bits 8, [(0x80, 0x8f), continuation, continuation]⟩
  else none

/-- What one byte does after what has begun: the characters that it completes, `none` for a part
that is no character, and what is begun after it. -/
def step (pending : Option Pending) (b : UInt8) : List (Option Char) × Option Pending :=
  let begin_ : List (Option Char) × Option Pending :=
    match leading? b with
    | none => ([none], none)
    | some ⟨bits, []⟩ => ([some (Char.ofNat bits)], none)
    | some p => ([], some p)
  match pending with
  | none | some ⟨_, []⟩ => begin_
  | some ⟨bits, (low, high) :: bounds⟩ =>
    if low ≤ b ∧ b ≤ high then
      let bits := 64 * bits + b.toNat % 64
      match bounds with
      | [] => ([some (Char.ofNat bits)], none)
      | bounds => ([], some ⟨bits, bounds⟩)
    else (none :: begin_.1, begin_.2)

/-- The characters of bytes that follow what has begun, with `none` for each part that is no
character. -/
def parts (pending : Option Pending) : Bytes → List (Option Char)
  | [] => if pending.isSome then [none] else []
  | b :: rest => (step pending b).1 ++ parts (step pending b).2 rest

def replacement : Char := '\ufffd'

/-- Decodes all bytes, with the replacement character for each part that is no character. -/
def decodeLossy (bytes : Bytes) : List Char := (parts none bytes).map (·.getD replacement)

/-- Decodes bytes that are characters throughout. -/
def decode? (bytes : Bytes) : Option (List Char) := (parts none bytes).mapM id

end ImportLedger.Text.Utf8
