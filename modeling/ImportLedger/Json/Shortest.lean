/-! The decimal number with the fewest digits that rounds to a given double, and of those the
one nearest to it. -/

namespace ImportLedger.Shortest

/-- A positive double, `mantissa · 2 ^ exponent`. -/
structure Binary where
  mantissa : Nat
  exponent : Int
  deriving DecidableEq, Repr

/-- A decimal number, `digits · 10 ^ exponent`. -/
structure Decimal where
  digits : Nat
  exponent : Int
  deriving DecidableEq, Repr

def fractionBound : Nat := Nat.pow 2 52

/-- The double of the given bits, without its sign. -/
def Binary.ofBits (bits : Nat) : Binary :=
  let fraction := bits % fractionBound
  let scale := bits / fractionBound % Nat.pow 2 11
  if scale = 0 then ⟨fraction, -1074⟩ else ⟨fraction + fractionBound, Int.ofNat scale - 1075⟩

namespace Binary

/-- The lower end of what rounds to the double, in quarters of its unit. It lies closer where
the doubles below are denser. -/
def lower (b : Binary) : Nat :=
  if b.mantissa = fractionBound ∧ b.exponent ≠ -1074 then 4 * b.mantissa - 1
  else 4 * b.mantissa - 2

/-- The upper end of what rounds to the double, in quarters of its unit. -/
def upper (b : Binary) : Nat := 4 * b.mantissa + 2

/-- Factors that make multiples of `10 ^ k` and quarters of the double's unit comparable. -/
def factors (b : Binary) (k : Int) : Nat × Nat :=
  let e := b.exponent - 2
  (Nat.pow 10 k.toNat * Nat.pow 2 (-e).toNat, Nat.pow 2 e.toNat * Nat.pow 10 (-k).toNat)

/-- Whether `c · 10 ^ k` rounds to the double; a tie goes to the even mantissa. -/
def rounds (b : Binary) (k : Int) (c : Nat) : Bool :=
  let (decimal, binary) := b.factors k
  if b.mantissa % 2 = 0 then b.lower * binary ≤ c * decimal && c * decimal ≤ b.upper * binary
  else b.lower * binary < c * decimal && c * decimal < b.upper * binary

/-- The multiple of `10 ^ k` nearest to the double among its two neighbours that round to it; of
two equally near the even one. -/
def nearest? (b : Binary) (k : Int) : Option Nat :=
  let (decimal, binary) := b.factors k
  let value := 4 * b.mantissa * binary
  let c := value / decimal
  match b.rounds k c, b.rounds k (c + 1) with
  | true, true =>
    let below := value - c * decimal
    let above := (c + 1) * decimal - value
    if below < above ∨ below = above ∧ c % 2 = 0 then some c else some (c + 1)
  | true, false => some c
  | false, true => some (c + 1)
  | false, false => none

/-- The coarsest powers of ten are tried first; the finest lies below every double's unit. -/
def shortest (b : Binary) : Decimal :=
  ((List.range 634).findSome? fun i =>
    let k := 309 - Int.ofNat i
    (b.nearest? k).map (⟨·, k⟩)).getD ⟨0, 0⟩

end Binary

end ImportLedger.Shortest
