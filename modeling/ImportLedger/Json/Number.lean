import ImportLedger.Json.Value

/-! What a written number stands for. Integers of 64 bits are exact. Any other number is a
double: its leading digits, as many as fit into 64 bits, times or divided by a power of ten. -/

namespace ImportLedger.Json

/-- The parts of a written number. -/
structure Numeral where
  negative : Bool
  whole : List Char
  fraction : List Char
  /-- Whether the exponent is negative, and its digits. -/
  exponent : Option (Bool × List Char)
  deriving DecidableEq, Repr

namespace Numeral

def digitValue (c : Char) : Nat := c.toNat - '0'.toNat

def wordBound : Nat := Nat.pow 2 64

/-- Appends digits to a number while it stays below the bound, and yields the digits left over
as well. -/
def absorb : Nat → List Char → Nat × List Char
  | n, [] => (n, [])
  | n, c :: rest =>
    if 10 * n + digitValue c < wordBound then absorb (10 * n + digitValue c) rest
    else (n, c :: rest)

/-- Powers of ten up to this one are doubles without a rounding of their own. -/
def largestPower : Nat := 308

def powerOfTen (n : Nat) : Float := Float.ofScientific 1 false n

/-- Divides by a power of ten, at most `10 ^ 308` at a time. -/
def scaleDown (x : Float) (n : Nat) : Float :=
  if n ≤ largestPower then x / powerOfTen n
  else if x == 0 then x
  else scaleDown (x / powerOfTen largestPower) (n - largestPower)
termination_by n
decreasing_by simp [largestPower] at *; omega

/-- Multiplies by a power of ten; `none` when the result is no double. -/
def scaleUp? (x : Float) (n : Nat) : Option Float :=
  if n ≤ largestPower then
    let y := x * powerOfTen n
    if y.isInf then none else some y
  else if x == 0 then some x
  else none

def scale? (x : Float) : Int → Option Float
  | .ofNat n => scaleUp? x n
  | .negSucc n => some (scaleDown x (n + 1))

/-- Exponents beyond this magnitude are not computed with. -/
def exponentBound : Nat := Nat.pow 2 31

/-- The magnitude of a number that is not kept as an integer. -/
def magnitude? (n : Numeral) : Option Float :=
  let (leading, dropped) := absorb 0 n.whole
  let (significand, left) := absorb leading n.fraction
  let scale : Int := dropped.length - (n.fraction.length - left.length)
  let x := significand.toUInt64.toFloat
  match n.exponent with
  | none => scale? x scale
  | some (down, digits) =>
    let e := digits.foldl (fun k c => 10 * k + digitValue c) 0
    if exponentBound ≤ e then if significand = 0 ∨ down then some 0 else none
    else scale? x (if down then scale - e else scale + e)

/-- The value of a number; `none` when it is too large for a double. -/
def value? (n : Numeral) : Option Json :=
  let real := n.magnitude?.map fun x => Json.real (if n.negative then -x else x)
  match n.fraction, n.exponent, absorb 0 n.whole with
  | [], none, (k, []) =>
    if !n.negative then some (.integer k)
    else if 0 < k ∧ k ≤ Nat.pow 2 63 then some (.integer (-(k : Int)))
    else real
  | _, _, _ => real

end Numeral

end ImportLedger.Json
