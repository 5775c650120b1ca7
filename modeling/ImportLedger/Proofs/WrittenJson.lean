import ImportLedger.Json.Record

/-! JSON values as a text writes them: the keys of an object may come again, and a string or a
number may be faulty. What is made of such a value where it is kept, and where it is passed over. -/

namespace ImportLedger.Json

/-- A string of a text. -/
structure WrittenString where
  kept : Except Fault String
  skipped : Except Fault Unit

inductive Written
  | scalar (kept : Except Fault Json) (skipped : Except Fault Unit)
  | string (s : WrittenString)
  | array (items : List Written)
  | object (members : List (WrittenString × Written))

/-- The members of an object from those that are written. -/
def Members.ofEntries (entries : List (String × Json)) : Members :=
  entries.foldl (fun members entry => members.put entry.1 entry.2) []

def Token.separated (parts : List (List Token)) : List Token := [Token.comma].intercalate parts

def WrittenString.token (s : WrittenString) : Token := .string s.kept s.skipped

namespace Written

@[elab_as_elim]
theorem induct {motive : Written → Prop}
    (scalar : ∀ kept skipped, motive (scalar kept skipped)) (string : ∀ s, motive (string s))
    (array : ∀ items, (∀ w ∈ items, motive w) → motive (array items))
    (object : ∀ members : List (WrittenString × Written),
      (∀ m ∈ members, motive m.2) → motive (object members))
    (w : Written) : motive w :=
  match w with
  | .scalar kept skipped => scalar kept skipped
  | .string s => string s
  | .array items => array items fun w hw =>
    have := List.sizeOf_lt_of_mem hw
    induct scalar string array object w
  | .object members => object members fun m hm =>
    have := List.sizeOf_lt_of_mem hm
    induct scalar string array object m.2
termination_by sizeOf w
decreasing_by
  · simp only [Written.array.sizeOf_spec]
    omega
  · obtain ⟨k, w⟩ := m
    simp only [Prod.mk.sizeOf_spec, Written.object.sizeOf_spec] at *
    omega

mutual

def tokens : Written → List Token
  | scalar kept skipped => [.scalar kept skipped]
  | string s => [s.token]
  | array items => .beginArray :: Token.separated (itemTokens items) ++ [.endArray]
  | object members => .beginObject :: Token.separated (memberTokens members) ++ [.endObject]

def itemTokens : List Written → List (List Token)
  | [] => []
  | w :: rest => w.tokens :: itemTokens rest

def memberTokens : List (WrittenString × Written) → List (List Token)
  | [] => []
  | (k, w) :: rest => (k.token :: .colon :: w.tokens) :: memberTokens rest

end

mutual

/-- The value that is kept, if it has no fault and its brackets are nested no deeper than `n`. -/
def keep : Nat → Written → Option Json
  | _, scalar kept _ => kept.toOption
  | _, string s => s.kept.toOption.map Json.string
  | 0, array _ => none
  | 0, object _ => none
  | n + 1, array items => (keepItems n items).map Json.array
  | n + 1, object members => (keepMembers n members).map fun entries =>
    .object (Members.ofEntries entries)

def keepItems (n : Nat) : List Written → Option (List Json)
  | [] => some []
  | w :: rest => do
    let v ← w.keep n
    let vs ← keepItems n rest
    return v :: vs

/-- Every member with its key, also where a key comes again. -/
def keepMembers (n : Nat) : List (WrittenString × Written) → Option (List (String × Json))
  | [] => some []
  | (k, w) :: rest => do
    let key ← k.kept.toOption
    let v ← w.keep n
    let entries ← keepMembers n rest
    return (key, v) :: entries

end

mutual

/-- Whether a value may be passed over, at any depth. -/
def passes : Written → Bool
  | scalar _ skipped => skipped.isOk
  | string s => s.skipped.isOk
  | array items => passesItems items
  | object members => passesMembers members

def passesItems : List Written → Bool
  | [] => true
  | w :: rest => w.passes && passesItems rest

def passesMembers : List (WrittenString × Written) → Bool
  | [] => true
  | (k, w) :: rest => k.skipped.isOk && w.passes && passesMembers rest

end

def member (m : WrittenString × Written) : List Token := m.1.token :: .colon :: m.2.tokens

def keepMember (n : Nat) (m : WrittenString × Written) : Option (String × Json) := do
  let key ← m.1.kept.toOption
  let v ← m.2.keep n
  return (key, v)

def passesMember (m : WrittenString × Written) : Bool := m.1.skipped.isOk && m.2.passes

theorem itemTokens_eq (items : List Written) : itemTokens items = items.map tokens := by
  induction items with
  | nil => rfl
  | cons w items ih => rw [itemTokens, ih, List.map_cons]

theorem memberTokens_eq (members : List (WrittenString × Written)) :
    memberTokens members = members.map member := by
  induction members with
  | nil => rfl
  | cons m members ih =>
    obtain ⟨k, w⟩ := m
    rw [memberTokens, ih, List.map_cons, member]

theorem keepItems_eq (n : Nat) (items : List Written) :
    keepItems n items = items.mapM (keep n) := by
  induction items with
  | nil => rfl
  | cons w items ih => simp [keepItems, ih]

theorem keepMembers_eq (n : Nat) (members : List (WrittenString × Written)) :
    keepMembers n members = members.mapM (keepMember n) := by
  induction members with
  | nil => rfl
  | cons m members ih =>
    obtain ⟨k, w⟩ := m
    simp [keepMembers, keepMember, ih, Option.bind_assoc]

theorem passesItems_eq (items : List Written) : passesItems items = items.all passes := by
  induction items with
  | nil => rfl
  | cons w items ih => rw [passesItems, ih, List.all_cons]

theorem passesMembers_eq (members : List (WrittenString × Written)) :
    passesMembers members = members.all passesMember := by
  induction members with
  | nil => rfl
  | cons m members ih =>
    obtain ⟨k, w⟩ := m
    rw [passesMembers, ih, List.all_cons, passesMember]

end Written

/-- What is made of a value that is written in a slot. -/
def Slot.take (n : Nat) : Slot → Written → Option Json
  | any, w => w.keep n
  | skipped, w => if w.passes then some .null else none
  | text, .string s => s.kept.toOption.map Json.string
  | table, .object members => Written.keep n (.object members)
  | text, .scalar kept _ | table, .scalar kept _ => do
    match ← kept.toOption with
    | .null => some .null
    | _ => none
  | _, _ => none

end ImportLedger.Json
