import ImportLedger.Json.Record
import ImportLedger.Proofs.JsonValues
import ImportLedger.Proofs.Outcomes

/-! What the reader of a record keeps. The depth of the stack bounds the depth of every value that
is kept, and a key that comes again takes the place of the earlier one. -/

namespace ImportLedger.Json

theorem absorb_lt {ds left : List Char} {n : Nat} (h : Numeral.absorb 0 ds = (n, left)) :
    n < Numeral.wordBound := by
  have hall (ds : List Char) (m : Nat) (hm : m < Numeral.wordBound) :
      (Numeral.absorb m ds).1 < Numeral.wordBound := by
    induction ds generalizing m with
    | nil => exact hm
    | cons c ds ih =>
      by_cases hc : 10 * m + Numeral.digitValue c < Numeral.wordBound
      · rw [Numeral.absorb, if_pos hc]
        exact ih _ hc
      · rwa [Numeral.absorb, if_neg hc]
  have hlt := hall ds 0 (by decide)
  rwa [h] at hlt

theorem value?_kept {n : Numeral} {v : Json} (h : n.value? = some v) (k : Nat) : Kept k v := by
  have hreal (h : (n.magnitude?.map fun x => Json.real (if n.negative then -x else x)) = some v) :
      Kept k v := by
    obtain ⟨x, -, rfl⟩ := Option.map_eq_some_iff.mp h
    exact .real _
  unfold Numeral.value? at h
  dsimp only at h
  split at h
  · rename_i m _ _ hm
    have hbound : m < Numeral.wordBound := absorb_lt hm
    split at h
    · obtain rfl := Option.some.inj h
      exact .integer ⟨by omega, by omega⟩
    · split at h
      · obtain rfl := Option.some.inj h
        exact .integer ⟨by omega, by omega⟩
      · exact hreal h
  · exact hreal h

namespace Token

/-- A scalar that is kept has no parts, so that it is kept at any depth. -/
def Sound : Token → Prop
  | scalar (.ok v) _ => ∀ n, Kept n v
  | _ => True

theorem lacksDigit_sound (s : List Char) : (lacksDigit s).Sound := by
  cases s <;> trivial

theorem fraction_sound {s : List Char} {token : Token} (h : fraction s = .error token) :
    token.Sound := by
  unfold fraction at h
  split at h
  · split at h
    · cases h
      exact lacksDigit_sound _
    · cases h
  · cases h

theorem exponent_sound {s : List Char} {token : Token} (h : exponent s = .error token) :
    token.Sound := by
  unfold exponent at h
  split at h
  · split at h
    · dsimp only at h
      split at h
      · cases h
        exact lacksDigit_sound _
      · cases h
    · cases h
  · cases h

theorem numberToken_sound (negative : Bool) (s : List Char) : (numberToken negative s).1.Sound := by
  unfold numberToken
  split
  · exact lacksDigit_sound s
  · trivial
  · split
    · exact fraction_sound ‹_›
    · split
      · exact exponent_sound ‹_›
      · rename_i fraction _ _ _ exponent _ _
        cases hv : Numeral.value? ⟨negative, s.takeWhile Char.isDigit, fraction, exponent⟩ with
        | none => trivial
        | some v => exact value?_kept hv

theorem wordToken_sound {v : Json} (hv : ∀ n, Kept n v) (word s : List Char) :
    (wordToken v word s).1.Sound := by
  induction word generalizing s with
  | nil => exact hv
  | cons w word ih =>
    cases s with
    | nil => trivial
    | cons c s =>
      by_cases hc : w = c
      · rw [wordToken, if_pos hc]
        exact ih s
      · rw [wordToken, if_neg hc]
        trivial

theorem begun_sound (c : Char) (s : List Char) : (begun c s).1.Sound := by
  unfold begun
  split
  case h_7 =>
    unfold stringToken
    split <;> trivial
  case h_8 => exact numberToken_sound true s
  case h_9 => exact wordToken_sound (fun _ => .null) _ s
  case h_10 => exact wordToken_sound (fun _ => .bool true) _ s
  case h_11 => exact wordToken_sound (fun _ => .bool false) _ s
  case h_12 =>
    split
    · exact numberToken_sound false _
    · trivial
  all_goals trivial

theorem ofText_sound {s : List Char} {token : Token} (h : token ∈ ofText s) : token.Sound := by
  induction s using ofText.induct with
  | case1 => simp [ofText] at h
  | case2 c rest hspace ih =>
    rw [ofText, if_pos hspace] at h
    exact ih h
  | case3 c rest hspace ih =>
    rw [ofText, if_neg hspace] at h
    rcases List.mem_cons.mp h with rfl | h
    · exact begun_sound c rest
    · exact ih h

end Token

/-- How deep a value may be behind a bracket that stands on others. -/
def room (below : List Frame) : Nat := depthBound - (below.length + 1)

theorem room_eq {frame : Frame} {below : List Frame} (h : (frame :: below).length < depthBound) :
    room below = room (frame :: below) + 1 := by
  simp only [room, List.length_cons] at h ⊢
  omega

/-- What has been read behind a bracket has its room. -/
def Frame.Sound (below : List Frame) : Frame → Prop
  | array items => below.length < depthBound ∧ ∀ v ∈ items, Kept (room below) v
  | object members _ =>
    below.length < depthBound ∧ (members.map (·.1)).Nodup ∧ ∀ m ∈ members, Kept (room below) m.2
  | record read _ | row read _ => ∀ m ∈ read, Kept (room below) m.2
  | passed _ => True

def StackSound : List Frame → Prop
  | [] => True
  | frame :: below => frame.Sound below ∧ StackSound below

theorem put_kept {n : Nat} {members : Members} (h : ∀ m ∈ members, Kept n m.2) (key : String)
    {v : Json} (hv : Kept n v) : ∀ m ∈ members.put key v, Kept n m.2 := by
  induction members with
  | nil =>
    intro m hm
    obtain rfl := List.mem_singleton.mp hm
    exact hv
  | cons m members ih =>
    obtain ⟨k, w⟩ := m
    have hrest : ∀ m ∈ members, Kept n m.2 := fun m hm => h m (List.mem_cons_of_mem _ hm)
    intro m hm
    by_cases hk : k = key
    · rw [Members.put, if_pos hk] at hm
      rcases List.mem_cons.mp hm with rfl | hm
      · exact hv
      · exact hrest m hm
    · rw [Members.put, if_neg hk] at hm
      rcases List.mem_cons.mp hm with rfl | hm
      · exact h _ List.mem_cons_self
      · exact ih hrest m hm

theorem put_nodup {members : Members} (h : (members.map (·.1)).Nodup) (key : String) (v : Json) :
    ((members.put key v).map (·.1)).Nodup := by
  rw [Members.map_fst_put]
  by_cases hk : key ∈ members.map (·.1)
  · rwa [if_pos hk]
  · rw [if_neg hk, List.nodup_append]
    refine ⟨h, by simp, ?_⟩
    intro a ha b hb hab
    obtain rfl := List.mem_singleton.mp hb
    exact hk (hab ▸ ha)

theorem Frame.Sound.accept {fields : Fields} {frame : Frame} {below : List Frame} {v : Json}
    (h : frame.Sound below) (hv : Kept (room below) v) : (frame.accept fields v).Sound below := by
  have happend {read : Members} (h : ∀ m ∈ read, Kept (room below) m.2) (key : String) :
      ∀ m ∈ read ++ [(key, v)], Kept (room below) m.2 := by
    intro m hm
    rcases List.mem_append.mp hm with hm | hm
    · exact h m hm
    · obtain rfl := List.mem_singleton.mp hm
      exact hv
  cases frame with
  | array items =>
    refine ⟨h.1, fun w hw => ?_⟩
    rcases List.mem_cons.mp hw with rfl | hw
    · exact hv
    · exact h.2 w hw
  | object members key => exact ⟨h.1, put_nodup h.2.1 key v, put_kept h.2.2 key hv⟩
  | passed isObject => trivial
  | record read key =>
    by_cases hk : (fields.lookup key).isSome
    · rw [Frame.accept, if_pos hk]
      exact happend h key
    · rw [Frame.accept, if_neg hk]
      exact h
  | row read remaining =>
    cases remaining with
    | nil => exact h
    | cons field remaining => exact happend h field.1

theorem Frame.Sound.value {frame outer : Frame} {below : List Frame}
    (h : frame.Sound (outer :: below)) : Kept (room below) frame.value := by
  cases frame with
  | array items =>
    rw [room_eq h.1]
    exact .array fun v hv => h.2 v (List.mem_reverse.mp hv)
  | object members key =>
    rw [room_eq h.1]
    exact .object h.2.1 h.2.2
  | passed isObject => exact .null
  | record read key => exact .null
  | row read remaining => exact .null

theorem Frame.Sound.withKey {fields : Fields} {kept : Except Fault String}
    {skipped : Except Fault Unit} {frame frame' : Frame} {below : List Frame}
    (hf : frame.withKey fields kept skipped = .ok frame') (h : frame.Sound below) :
    frame'.Sound below := by
  cases frame with
  | array items =>
    cases hf
    exact h
  | object members key =>
    obtain ⟨key', -, rfl⟩ := ok_of_map hf
    exact h
  | passed isObject =>
    obtain ⟨_, -, rfl⟩ := ok_of_map hf
    exact h
  | record read key =>
    obtain ⟨key', -, hf⟩ := ok_of_bind hf
    split at hf
    · cases hf
    · cases hf
      exact h
  | row read remaining =>
    cases hf
    exact h

namespace State

def Sound : State → Prop
  | start => True
  | inside frame below _ => StackSound (frame :: below)
  | finished read => ∀ m ∈ read, Kept (room []) m.2

theorem settle_sound {fields : Fields} {v : Json} {frame : Frame} {below : List Frame}
    (h : StackSound (frame :: below)) (hv : Kept (room below) v) :
    (settle fields v frame below).Sound :=
  ⟨h.1.accept hv, h.2⟩

theorem nest_sound {frame : Frame} {phase : Phase} {below : List Frame} {s : State}
    (hs : nest frame phase below = .ok s) (h : StackSound below)
    (hframe : below.length < depthBound → frame.Sound below) : s.Sound := by
  unfold nest at hs
  split at hs
  · rename_i hdepth
    cases hs
    exact ⟨hframe hdepth, h⟩
  · cases hs

theorem close_sound {fields : Fields} {frame : Frame} {below : List Frame} {s : State}
    (hs : close fields frame below = .ok s) (h : StackSound (frame :: below)) : s.Sound := by
  -- The record itself is the lowest bracket.
  have hroom : room below ≤ room [] := by
    simp only [room, List.length_nil]
    omega
  unfold close at hs
  split at hs
  · cases hs
    exact fun m hm => (h.1 m hm).mono hroom
  · cases hs
    exact fun m hm => (h.1 m hm).mono hroom
  · cases hs
  · cases hs
    exact settle_sound h.2 h.1.value
  · cases hs

theorem takeValue_sound {fields : Fields} {frame : Frame} {below : List Frame} {token : Token}
    {s : State} (hs : takeValue fields frame below token = .ok s)
    (h : StackSound (frame :: below)) (htoken : token.Sound) : s.Sound := by
  have hnull : (settle fields .null frame below).Sound := settle_sound h .null
  unfold takeValue at hs
  split at hs
  · split at hs
    · obtain ⟨v, rfl, rfl⟩ := ok_of_map hs
      exact settle_sound h (htoken _)
    · obtain ⟨_, -, rfl⟩ := ok_of_map hs
      exact hnull
    all_goals
      obtain ⟨v, -, hs⟩ := ok_of_bind hs
      split at hs
      · cases hs
        exact hnull
      · cases hs
  · split at hs
    · obtain ⟨s, -, rfl⟩ := ok_of_map hs
      exact settle_sound h (.string s)
    · obtain ⟨s, -, rfl⟩ := ok_of_map hs
      exact settle_sound h (.string s)
    · obtain ⟨_, -, rfl⟩ := ok_of_map hs
      exact hnull
    · obtain ⟨_, -, hs⟩ := ok_of_bind hs
      cases hs
  · split at hs
    · exact nest_sound hs h fun hdepth => ⟨hdepth, by simp⟩
    · cases hs
      exact ⟨trivial, h⟩
    all_goals cases hs
  · split at hs
    · exact nest_sound hs h fun hdepth => ⟨hdepth, by simp⟩
    · exact nest_sound hs h fun hdepth => ⟨hdepth, by simp⟩
    · cases hs
      exact ⟨trivial, h⟩
    · cases hs
  · cases hs

theorem takeKey_sound {fields : Fields} {frame : Frame} {below : List Frame} {token : Token}
    {s : State} (hs : takeKey fields frame below token = .ok s)
    (h : StackSound (frame :: below)) : s.Sound := by
  unfold takeKey at hs
  split at hs
  · obtain ⟨frame', hf, hs⟩ := ok_of_bind hs
    cases hs
    exact ⟨h.1.withKey hf, h.2⟩
  · cases hs

theorem takeComma_sound {frame : Frame} {below : List Frame} {s : State}
    (hs : takeComma frame below = .ok s) (h : StackSound (frame :: below)) : s.Sound := by
  unfold takeComma at hs
  split at hs
  · cases hs
  · cases hs
    exact h

theorem step_sound {fields : Fields} {s s' : State} {token : Token}
    (hs : step fields s token = .ok s') (h : s.Sound) (htoken : token.Sound) : s'.Sound := by
  unfold step at hs
  split at hs
  · cases hs
    exact ⟨by simp [Frame.Sound], trivial⟩
  · cases hs
    exact ⟨by simp [Frame.Sound], trivial⟩
  · obtain ⟨_, -, hs⟩ := ok_of_bind hs
    cases hs
  · obtain ⟨_, -, hs⟩ := ok_of_bind hs
    cases hs
  · exact takeValue_sound hs h htoken
  · exact close_sound hs h
  · exact takeValue_sound hs h htoken
  · exact takeKey_sound hs h
  · exact close_sound hs h
  · exact takeKey_sound hs h
  · cases hs
    exact h
  · exact takeComma_sound hs h
  · split at hs
    · cases hs
    · exact close_sound hs h
  · split at hs
    · exact close_sound hs h
    · cases hs
  · cases hs

theorem run_sound {fields : Fields} {tokens : List Token} {s s' : State}
    (hs : tokens.foldlM (step fields) s = .ok s') (h : s.Sound)
    (htokens : ∀ token ∈ tokens, token.Sound) : s'.Sound := by
  induction tokens generalizing s with
  | nil =>
    cases hs
    exact h
  | cons token tokens ih =>
    rw [List.foldlM_cons] at hs
    obtain ⟨next, hstep, hrest⟩ := ok_of_bind hs
    have hnext := step_sound hstep h (htokens token List.mem_cons_self)
    exact ih hrest hnext fun t ht => htokens t (List.mem_cons_of_mem _ ht)

end State

/-- The brackets of a field stand on the one of the record. -/
theorem readRecord_kept {fields : Fields} {text : String} {read : Members}
    (h : readRecord fields text = .ok read) : ∀ m ∈ read, Kept (room []) m.2 := by
  obtain ⟨s, hrun, hresult⟩ := ok_of_bind h
  have hs : s.Sound := State.run_sound hrun trivial fun _ => Token.ofText_sound
  cases s with
  | start => cases hresult
  | inside frame below phase => cases hresult
  | finished read' =>
    cases hresult
    exact hs

end ImportLedger.Json
