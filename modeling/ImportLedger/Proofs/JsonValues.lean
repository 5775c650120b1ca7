import ImportLedger.Json.Number

/-! Proofs over all parts of a value, values whose numbers are all exact, and values that a text
of bounded depth can write. -/

namespace ImportLedger.Json

/-- To prove something of all values it may be taken for granted of the parts of a value. -/
@[elab_as_elim]
theorem induct {motive : Json → Prop} (null : motive null) (bool : ∀ b, motive (bool b))
    (integer : ∀ n, motive (integer n)) (real : ∀ x, motive (real x))
    (string : ∀ s, motive (string s))
    (array : ∀ items, (∀ v ∈ items, motive v) → motive (array items))
    (object : ∀ members : Members, (∀ m ∈ members, motive m.2) → motive (object members))
    (v : Json) : motive v :=
  match v with
  | .null => null
  | .bool b => bool b
  | .integer n => integer n
  | .real x => real x
  | .string s => string s
  | .array items => array items fun v hv =>
    have := List.sizeOf_lt_of_mem hv
    induct null bool integer real string array object v
  | .object members => object members fun m hm =>
    have := List.sizeOf_lt_of_mem hm
    induct null bool integer real string array object m.2
termination_by sizeOf v
decreasing_by
  · simp only [Json.array.sizeOf_spec]
    omega
  · obtain ⟨k, v⟩ := m
    simp only [Prod.mk.sizeOf_spec, Json.object.sizeOf_spec] at *
    omega

mutual

/-- Whether a value has no number that is kept as a double. -/
def isExact : Json → Bool
  | real _ => false
  | array items => isExactItems items
  | object members => isExactMembers members
  | null | bool _ | integer _ | string _ => true

def isExactItems : List Json → Bool
  | [] => true
  | v :: rest => v.isExact && isExactItems rest

def isExactMembers : List (String × Json) → Bool
  | [] => true
  | (_, v) :: rest => v.isExact && isExactMembers rest

end

theorem isExact_array {items : List Json} :
    (array items).isExact = true ↔ ∀ v ∈ items, v.isExact = true := by
  rw [isExact]
  induction items with
  | nil => simp [isExactItems]
  | cons v items ih => simp [isExactItems, ih]

theorem isExact_object {members : Members} :
    (object members).isExact = true ↔ ∀ m ∈ members, m.2.isExact = true := by
  rw [isExact]
  induction members with
  | nil => simp [isExactMembers]
  | cons m members ih =>
    obtain ⟨k, v⟩ := m
    simp [isExactMembers, ih]

/-- Integers that are kept as such. -/
def InWord (n : Int) : Prop := -(Nat.pow 2 63 : Int) ≤ n ∧ n < (Numeral.wordBound : Int)

/-- Values whose brackets are nested no deeper than a bound. Their integers have 64 bits, and no
object has a key twice. -/
inductive Kept : Nat → Json → Prop
  | null {n : Nat} : Kept n null
  | bool {n : Nat} (b : Bool) : Kept n (bool b)
  | integer {n : Nat} {k : Int} (h : InWord k) : Kept n (integer k)
  | real {n : Nat} (x : Float) : Kept n (real x)
  | string {n : Nat} (s : String) : Kept n (string s)
  | array {n : Nat} {items : List Json} (h : ∀ v ∈ items, Kept n v) : Kept (n + 1) (array items)
  | object {n : Nat} {members : Members} (hkeys : (members.map (·.1)).Nodup)
      (h : ∀ m ∈ members, Kept n m.2) : Kept (n + 1) (object members)

theorem Kept.mono {m n : Nat} {v : Json} (h : Kept m v) (hmn : m ≤ n) : Kept n v := by
  induction h generalizing n with
  | null => exact null
  | bool b => exact bool b
  | integer h => exact integer h
  | real x => exact real x
  | string s => exact string s
  | array _ ih =>
    obtain ⟨n, rfl⟩ := Nat.exists_eq_add_of_lt hmn
    exact array fun v hv => ih v hv (by omega)
  | object hkeys _ ih =>
    obtain ⟨n, rfl⟩ := Nat.exists_eq_add_of_lt hmn
    exact object hkeys fun m hm => ih m hm (by omega)

end ImportLedger.Json
