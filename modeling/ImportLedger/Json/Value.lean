/-! JSON values. Objects keep the order in which their keys were first seen. -/

namespace ImportLedger

/-- A JSON value. A number is kept exactly when it is an integer of 64 bits, and as a double
otherwise. -/
inductive Json
  | null
  | bool (b : Bool)
  | integer (n : Int)
  | real (x : Float)
  | string (s : String)
  | array (items : List Json)
  | object (members : List (String × Json))
  deriving Repr

namespace Json

/-- The members of an object; a value of another kind has none. -/
abbrev Members := List (String × Json)

/-- Gives a key its value. A key that is there already keeps its place. -/
def Members.put (members : Members) (key : String) (value : Json) : Members :=
  match members with
  | [] => [(key, value)]
  | (k, v) :: rest =>
    if k = key then (k, value) :: rest else (k, v) :: Members.put rest key value

theorem Members.map_fst_put (members : Members) (key : String) (value : Json) :
    (members.put key value).map (·.1) =
      if key ∈ members.map (·.1) then members.map (·.1) else members.map (·.1) ++ [key] := by
  induction members with
  | nil => simp [put]
  | cons m rest ih =>
    obtain ⟨k, v⟩ := m
    by_cases h : k = key
    · simp [put, h]
    · simp only [put, h, if_false, List.map_cons, ih, List.mem_cons]
      by_cases member : key ∈ rest.map (·.1) <;> simp [member, Ne.symm h]

end Json

end ImportLedger
