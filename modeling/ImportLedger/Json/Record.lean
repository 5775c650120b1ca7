import ImportLedger.Json.Token

/-! Reading a JSON text as a record: an object, or an array in the order of the fields. The known
fields are kept and the rest is passed over. The tokens drive a machine with a stack of open
brackets, so the first fault in reading order is the one reported. -/

namespace ImportLedger.Json

/-- What is asked for at a place of the text. -/
inductive Slot
  | any
  /-- A string or null. -/
  | text
  /-- An object or null. -/
  | table
  | skipped
  deriving DecidableEq, Repr

/-- The names of a record's fields, and what each of them has to be. -/
abbrev Fields := List (String × Slot)

/-- An open bracket with what has been read behind it. -/
inductive Frame
  /-- Items, the last one first. -/
  | array (items : List Json)
  /-- Members, and the key whose value comes next. -/
  | object (members : Members) (key : String)
  /-- A bracket that is passed over. -/
  | passed (isObject : Bool)
  /-- The record as an object. -/
  | record (read : Members) (key : String)
  /-- The record as an array, with the fields still to come. -/
  | row (read : Members) (remaining : Fields)

/-- What may come next behind an open bracket. -/
inductive Phase
  | value
  | valueOrEnd
  | key
  | keyOrEnd
  | colon
  | separator
  deriving DecidableEq, Repr

inductive State
  | start
  | inside (frame : Frame) (below : List Frame) (phase : Phase)
  | finished (read : Members)

/-- Kept brackets may be nested this deep, the record's own included. -/
def depthBound : Nat := 127

namespace Frame

def isObject : Frame → Bool
  | array _ | row _ _ => false
  | object _ _ | record _ _ => true
  | passed isObject => isObject

/-- What the next value behind the bracket has to be. -/
def slot (fields : Fields) : Frame → Slot
  | array _ | object _ _ => .any
  | passed _ | row _ [] => .skipped
  | record _ key => (fields.lookup key).getD .skipped
  | row _ ((_, slot) :: _) => slot

def accept (fields : Fields) (v : Json) : Frame → Frame
  | array items => array (v :: items)
  | object members key => object (members.put key v) key
  | passed isObject => passed isObject
  | record read key =>
    if (fields.lookup key).isSome then record (read ++ [(key, v)]) key else record read key
  | row read [] => row read []
  | row read ((key, _) :: remaining) => row (read ++ [(key, v)]) remaining

/-- The value that a bracket holds. -/
def value : Frame → Json
  | array items => .array items.reverse
  | object members _ => .object members
  | passed _ | record _ _ | row _ _ => .null

/-- Notes a key. A field of the record must not be given twice. -/
def withKey (fields : Fields) (kept : Except Fault String) (skipped : Except Fault Unit) :
    Frame → Except Fault Frame
  | passed isObject => skipped.map fun _ => passed isObject
  | object members _ => kept.map (object members)
  | record read _ => do
    let key ← kept
    if (fields.lookup key).isSome && (read.lookup key).isSome then .error .mismatched
    else .ok (record read key)
  | frame => .ok frame

end Frame

namespace State

/-- Puts a value behind a bracket. -/
def settle (fields : Fields) (v : Json) (frame : Frame) (below : List Frame) : State :=
  inside (frame.accept fields v) below .separator

/-- Closes a bracket. A row has to be complete. -/
def close (fields : Fields) : Frame → List Frame → Except Fault State
  | .record read _, _ => .ok (finished read)
  | .row read [], _ => .ok (finished read)
  | .row _ (_ :: _), _ => .error .mismatched
  | frame, outer :: below => .ok (settle fields frame.value outer below)
  | _, [] => .error .malformed

/-- Opens a bracket whose content is kept. -/
def nest (frame : Frame) (phase : Phase) (below : List Frame) : Except Fault State :=
  if below.length < depthBound then .ok (inside frame below phase) else .error .malformed

/-- Reads a token where a value has to come. -/
def takeValue (fields : Fields) (frame : Frame) (below : List Frame) :
    Token → Except Fault State
  | .scalar kept skipped =>
    match frame.slot fields with
    | .any => kept.map fun v => settle fields v frame below
    | .skipped => skipped.map fun _ => settle fields .null frame below
    | .text | .table => do
      match ← kept with
      | .null => .ok (settle fields .null frame below)
      | _ => .error .mismatched
  | .string kept skipped =>
    match frame.slot fields with
    | .any | .text => kept.map fun s => settle fields (.string s) frame below
    | .skipped => skipped.map fun _ => settle fields .null frame below
    | .table => do
      let _ ← kept
      .error .mismatched
  | .beginArray =>
    match frame.slot fields with
    | .any => nest (.array []) .valueOrEnd (frame :: below)
    | .skipped => .ok (inside (.passed false) (frame :: below) .valueOrEnd)
    | .text | .table => .error .mismatched
  | .beginObject =>
    match frame.slot fields with
    | .any | .table => nest (.object [] "") .keyOrEnd (frame :: below)
    | .skipped => .ok (inside (.passed true) (frame :: below) .keyOrEnd)
    | .text => .error .mismatched
  | _ => .error .malformed

def takeKey (fields : Fields) (frame : Frame) (below : List Frame) : Token → Except Fault State
  | .string kept skipped => do
    return inside (← frame.withKey fields kept skipped) below .colon
  | _ => .error .malformed

/-- Reads a comma. A complete row has no further item. -/
def takeComma (frame : Frame) (below : List Frame) : Except Fault State :=
  match frame with
  | .row _ [] => .error .malformed
  | _ => .ok (inside frame below (if frame.isObject then .key else .value))

/-- Reads one token. -/
def step (fields : Fields) : State → Token → Except Fault State
  | start, .beginObject => .ok (inside (.record [] "") [] .keyOrEnd)
  | start, .beginArray => .ok (inside (.row [] fields) [] .valueOrEnd)
  | start, .scalar kept _ => do
    let _ ← kept
    .error .mismatched
  | start, .string kept _ => do
    let _ ← kept
    .error .mismatched
  | inside frame below .value, token => takeValue fields frame below token
  | inside frame below .valueOrEnd, .endArray => close fields frame below
  | inside frame below .valueOrEnd, token => takeValue fields frame below token
  | inside frame below .key, token => takeKey fields frame below token
  | inside frame below .keyOrEnd, .endObject => close fields frame below
  | inside frame below .keyOrEnd, token => takeKey fields frame below token
  | inside frame below .colon, .colon => .ok (inside frame below .value)
  | inside frame below .separator, .comma => takeComma frame below
  | inside frame below .separator, .endArray =>
    if frame.isObject then .error .malformed else close fields frame below
  | inside frame below .separator, .endObject =>
    if frame.isObject then close fields frame below else .error .malformed
  | _, _ => .error .malformed

/-- The record that has been read once the text is at its end. -/
def result : State → Except Fault Members
  | finished read => .ok read
  | _ => .error .ended

end State

/-- The known fields of a record, in the order in which the text gives them. -/
def readRecord (fields : Fields) (text : String) : Except Fault Members := do
  (← (Token.ofText text.toList).foldlM (State.step fields) .start).result

end ImportLedger.Json
