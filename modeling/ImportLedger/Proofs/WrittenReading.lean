import ImportLedger.Proofs.JsonKept
import ImportLedger.Proofs.WrittenJson

/-! The reader on the tokens of a written value. Behind a bracket a value is read up to its end, and
the bracket holds then what is made of the value in its slot; where nothing is made of it the text
is refused. -/

namespace ImportLedger.Json

theorem foldlM_mapped {α β σ : Type} (f : α → Option β) (put : σ → β → σ) (l : List α) (s : σ) :
    l.foldlM (fun s a => (f a).map (put s)) s = (l.mapM f).map (·.foldl put s) := by
  induction l generalizing s with
  | nil => rfl
  | cons a l ih =>
    rw [List.foldlM_cons, List.mapM_cons]
    cases f a with
    | none => rfl
    | some b =>
      change l.foldlM _ (put s b) = _
      rw [ih]
      cases l.mapM f <;> rfl

theorem foldlM_checked {α : Type} (p : α → Bool) (l : List α) :
    l.foldlM (fun _ a => if p a then some () else none) () =
      if l.all p then some () else none := by
  induction l with
  | nil => rfl
  | cons a l ih =>
    rw [List.foldlM_cons, List.all_cons]
    cases p a with
    | false => rfl
    | true => exact ih

def Phase.opening (isObject : Bool) : Phase := if isObject then .keyOrEnd else .valueOrEnd

def Phase.next (isObject : Bool) : Phase := if isObject then .key else .value

def Token.closing (isObject : Bool) : Token := if isObject then .endObject else .endArray

namespace State

variable {fields : Fields}

/-- The state behind some tokens, if they are accepted. -/
def advance (fields : Fields) (s : State) (tokens : List Token) : Option State :=
  (tokens.foldlM (step fields) s).toOption

theorem advance_cons (s : State) (token : Token) (tokens : List Token) :
    advance fields s (token :: tokens) =
      (step fields s token).toOption.bind fun s' => advance fields s' tokens := by
  rw [advance, List.foldlM_cons, toOption_bind]
  rfl

theorem step_value {frame : Frame} {below : List Frame} {phase : Phase}
    (h : phase = .value ∨ phase = .valueOrEnd) {token : Token} (ht : token ≠ .endArray) :
    step fields (inside frame below phase) token = takeValue fields frame below token := by
  rcases h with rfl | rfl
  · rfl
  · unfold step
    split <;> simp_all

/-- Where a value may come, a written one is read up to its end and put into its slot. -/
def Takes (fields : Fields) (w : Written) : Prop :=
  ∀ ⦃frame : Frame⦄ ⦃below : List Frame⦄ ⦃phase : Phase⦄ (rest : List Token),
    phase = .value ∨ phase = .valueOrEnd →
    advance fields (inside frame below phase) (w.tokens ++ rest) =
      ((frame.slot fields).take (room below) w).bind fun v =>
        advance fields (settle fields v frame below) rest

theorem takes_scalar (kept : Except Fault Json) (skipped : Except Fault Unit) :
    Takes fields (.scalar kept skipped) := by
  intro frame below phase rest hphase
  rw [Written.tokens, List.singleton_append, advance_cons, step_value hphase (by simp), takeValue]
  cases frame.slot fields with
  | any => cases kept <;> rfl
  | text | table =>
    cases kept with
    | error fault => rfl
    | ok v => cases v <;> rfl
  | skipped => cases skipped <;> rfl

theorem takes_string (s : WrittenString) : Takes fields (.string s) := by
  intro frame below phase rest hphase
  obtain ⟨kept, skipped⟩ := s
  have htoken : WrittenString.token ⟨kept, skipped⟩ ≠ .endArray := by simp [WrittenString.token]
  rw [Written.tokens, List.singleton_append, advance_cons, step_value hphase htoken,
    WrittenString.token, takeValue]
  cases frame.slot fields with
  | any | text | table => cases kept <;> rfl
  | skipped => cases skipped <;> rfl

/-- Frames that stay brackets of one kind whatever is read into them. A row is none of them, as it
takes no more items than it has fields. -/
structure Gathers {σ : Type} (F : σ → Frame) (isObject : Bool) : Prop where
  bracket : ∀ s, (F s).isObject = isObject
  comma : ∀ s below,
    takeComma (F s) below = .ok (inside (F s) below (Phase.next isObject))

theorem step_closing {frame : Frame} {isObject : Bool} (h : frame.isObject = isObject)
    (below : List Frame) :
    step fields (inside frame below .separator) (Token.closing isObject) =
      close fields frame below := by
  cases isObject <;> simp [Token.closing, step, h]

section

variable {σ α : Type} {F : σ → Frame} {isObject : Bool} {part : α → List Token}
  {effect : σ → α → Option σ} {below : List Frame}

/-- What one part does to the bracket around it. -/
def ReadsPart (fields : Fields) (F : σ → Frame) (isObject : Bool) (below : List Frame)
    (part : α → List Token) (effect : σ → α → Option σ) (a : α) : Prop :=
  ∀ s phase rest, phase = Phase.next isObject ∨ phase = Phase.opening isObject →
    advance fields (inside (F s) below phase) (part a ++ rest) =
      (effect s a).bind fun s' => advance fields (inside (F s') below .separator) rest

theorem advance_parts (hF : Gathers F isObject) {parts : List α} (hne : parts ≠ [])
    (hparts : ∀ a ∈ parts, ReadsPart fields F isObject below part effect a) (s : σ) {phase : Phase}
    (hphase : phase = Phase.next isObject ∨ phase = Phase.opening isObject) (rest : List Token) :
    advance fields (inside (F s) below phase) (Token.separated (parts.map part) ++ rest) =
      (parts.foldlM effect s).bind fun s' =>
        advance fields (inside (F s') below .separator) rest := by
  induction parts generalizing s phase with
  | nil => exact absurd rfl hne
  | cons a parts ih =>
    have hone := hparts a List.mem_cons_self
    cases parts with
    | nil =>
      rw [List.map_singleton, Token.separated, List.intercalate_singleton, hone s phase rest hphase,
        List.foldlM_cons]
      cases effect s a <;> rfl
    | cons b parts =>
      have hcomma (s' : σ) (tokens : List Token) :
          advance fields (inside (F s') below .separator) (.comma :: tokens) =
            advance fields (inside (F s') below (Phase.next isObject)) tokens := by
        rw [advance_cons, step, hF.comma]
        rfl
      have hrest (s' : σ) := ih (by simp) (fun c hc => hparts c (List.mem_cons_of_mem _ hc)) s'
        (Or.inl rfl)
      rw [List.map_cons, List.map_cons, Token.separated, List.intercalate_cons_cons,
        List.append_assoc, List.append_assoc, hone s phase _ hphase, List.foldlM_cons]
      cases effect s a with
      | none => rfl
      | some s' => exact (hcomma s' _).trans (hrest s')

/-- A bracket with all its parts, from what has been opened to what has been closed. -/
theorem advance_bracket (hF : Gathers F isObject) {parts : List α}
    (hparts : ∀ a ∈ parts, ReadsPart fields F isObject below part effect a) (s : σ)
    (rest : List Token) :
    advance fields (inside (F s) below (Phase.opening isObject))
        (Token.separated (parts.map part) ++ Token.closing isObject :: rest) =
      (parts.foldlM effect s).bind fun s' =>
        (close fields (F s') below).toOption.bind fun t => advance fields t rest := by
  by_cases hne : parts = []
  · subst hne
    cases isObject <;> exact advance_cons _ _ _
  · rw [advance_parts hF hne hparts s (Or.inr rfl)]
    refine congrArg _ (funext fun s' => ?_)
    rw [advance_cons, step_closing (hF.bracket s')]

end

/-- A member is read as its key, and its value in the slot of the key. -/
theorem advance_member {m : WrittenString × Written} (hm : Takes fields m.2) {frame : Frame}
    {below : List Frame} {phase : Phase} (hphase : phase = .key ∨ phase = .keyOrEnd)
    (rest : List Token) :
    advance fields (inside frame below phase) (Written.member m ++ rest) =
      (frame.withKey fields m.1.kept m.1.skipped).toOption.bind fun frame' =>
        ((frame'.slot fields).take (room below) m.2).bind fun v =>
          advance fields (settle fields v frame' below) rest := by
  have hkey : step fields (inside frame below phase) m.1.token =
      takeKey fields frame below m.1.token := by
    rcases hphase with rfl | rfl <;> rfl
  rw [Written.member, List.cons_append, List.cons_append, advance_cons, hkey, WrittenString.token,
    takeKey, toOption_bind, Option.bind_assoc]
  refine congrArg _ (funext fun frame' => ?_)
  change advance fields (inside frame' below .colon) (.colon :: (m.2.tokens ++ rest)) = _
  rw [advance_cons]
  exact hm rest (Or.inl rfl)

section

variable {items : List Written} {members : List (WrittenString × Written)}

theorem gathers_passed (isObject : Bool) :
    Gathers (fun _ : Unit => Frame.passed isObject) isObject where
  bracket _ := rfl
  comma _ _ := rfl

theorem gathers_array : Gathers Frame.array false where
  bracket _ := rfl
  comma _ _ := rfl

theorem gathers_object : Gathers (fun s : Members × String => Frame.object s.1 s.2) true where
  bracket _ := rfl
  comma _ _ := rfl

theorem advance_kept_array (h : ∀ w ∈ items, Takes fields w) (outer : Frame) (below : List Frame)
    (rest : List Token) :
    advance fields (inside (.array []) (outer :: below) .valueOrEnd)
        (Token.separated (items.map Written.tokens) ++ .endArray :: rest) =
      (Written.keepItems (room (outer :: below)) items).bind fun vs =>
        advance fields (settle fields (.array vs) outer below) rest := by
  have hitems : ∀ w ∈ items, ReadsPart fields Frame.array false (outer :: below) Written.tokens
      (fun read w => (w.keep (room (outer :: below))).map fun v => v :: read) w := by
    intro w hw read phase rest hphase
    rw [h w hw rest hphase, Option.bind_map]
    rfl
  refine (advance_bracket gathers_array hitems [] rest).trans ?_
  rw [foldlM_mapped _ (fun read v => v :: read), Option.bind_map, Written.keepItems_eq]
  refine congrArg _ (funext fun vs => ?_)
  have hvalue : (Frame.array (vs.foldl (fun read v => v :: read) [])).value = .array vs := by
    simp [Frame.value]
  exact congrArg (fun v => advance fields (settle fields v outer below) rest) hvalue

theorem advance_passed_array (h : ∀ w ∈ items, Takes fields w) (outer : Frame)
    (below : List Frame) (rest : List Token) :
    advance fields (inside (.passed false) (outer :: below) .valueOrEnd)
        (Token.separated (items.map Written.tokens) ++ .endArray :: rest) =
      if Written.passesItems items then advance fields (settle fields .null outer below) rest
      else none := by
  have hitems : ∀ w ∈ items, ReadsPart fields (fun _ => Frame.passed false) false (outer :: below)
      Written.tokens (fun _ w => if w.passes then some () else none) w := by
    intro w hw read phase rest hphase
    rw [h w hw rest hphase]
    cases hw : w.passes <;> simp [Slot.take, Frame.slot, hw, settle, Frame.accept]
  refine (advance_bracket (gathers_passed false) hitems () rest).trans ?_
  rw [foldlM_checked, Written.passesItems_eq]
  cases items.all Written.passes <;> rfl

theorem advance_kept_object (h : ∀ m ∈ members, Takes fields m.2) (outer : Frame)
    (below : List Frame) (rest : List Token) :
    advance fields (inside (.object [] "") (outer :: below) .keyOrEnd)
        (Token.separated (members.map Written.member) ++ .endObject :: rest) =
      (Written.keepMembers (room (outer :: below)) members).bind fun entries =>
        advance fields (settle fields (.object (Members.ofEntries entries)) outer below) rest := by
  let put (s : Members × String) (entry : String × Json) : Members × String :=
    (s.1.put entry.1 entry.2, entry.1)
  have hmembers : ∀ m ∈ members, ReadsPart fields
      (fun s : Members × String => Frame.object s.1 s.2) true (outer :: below) Written.member
      (fun s m => (Written.keepMember (room (outer :: below)) m).map (put s)) m := by
    intro m hm s phase rest hphase
    rw [advance_member (h m hm) hphase]
    obtain ⟨⟨kept, skipped⟩, w⟩ := m
    cases kept with
    | error fault => rfl
    | ok key =>
      cases hw : w.keep (room (outer :: below)) <;>
        simp [Frame.withKey, Written.keepMember, Except.map, Except.toOption, Frame.slot, Slot.take,
          hw, put, settle, Frame.accept]
  refine (advance_bracket gathers_object hmembers ([], "") rest).trans ?_
  rw [foldlM_mapped _ put, Option.bind_map, Written.keepMembers_eq]
  refine congrArg _ (funext fun entries => ?_)
  have hfold (s : Members × String) : (entries.foldl put s).1 =
      entries.foldl (fun members entry => members.put entry.1 entry.2) s.1 := by
    induction entries generalizing s with
    | nil => rfl
    | cons entry entries ih => exact ih _
  exact congrArg (fun members => advance fields (settle fields (.object members) outer below) rest)
    (hfold ([], ""))

theorem advance_passed_object (h : ∀ m ∈ members, Takes fields m.2) (outer : Frame)
    (below : List Frame) (rest : List Token) :
    advance fields (inside (.passed true) (outer :: below) .keyOrEnd)
        (Token.separated (members.map Written.member) ++ .endObject :: rest) =
      if Written.passesMembers members then advance fields (settle fields .null outer below) rest
      else none := by
  have hmembers : ∀ m ∈ members, ReadsPart fields (fun _ => Frame.passed true) true
      (outer :: below) Written.member
      (fun _ m => if Written.passesMember m then some () else none) m := by
    intro m hm s phase rest hphase
    rw [advance_member (h m hm) hphase]
    obtain ⟨⟨kept, skipped⟩, w⟩ := m
    cases skipped <;> cases hw : w.passes <;>
      simp [Frame.withKey, Written.passesMember, hw, Except.toOption, Except.map, Except.isOk,
        Except.toBool, Frame.slot, Slot.take, settle, Frame.accept]
  refine (advance_bracket (gathers_passed true) hmembers () rest).trans ?_
  rw [foldlM_checked, Written.passesMembers_eq]
  cases members.all Written.passesMember <;> rfl

theorem room_eq_zero {frame : Frame} {below : List Frame}
    (h : ¬(frame :: below).length < depthBound) : room below = 0 := by
  simp only [room, List.length_cons] at h ⊢
  omega

theorem takes_array (h : ∀ w ∈ items, Takes fields w) : Takes fields (.array items) := by
  intro frame below phase rest hphase
  rw [Written.tokens, Written.itemTokens_eq, List.cons_append, List.cons_append, List.append_assoc,
    List.singleton_append, advance_cons, step_value hphase (by simp), takeValue]
  cases frame.slot fields with
  | any =>
    by_cases hdepth : (frame :: below).length < depthBound
    · rw [nest, if_pos hdepth, Slot.take, room_eq hdepth, Written.keep, Option.bind_map]
      exact advance_kept_array h frame below rest
    · rw [nest, if_neg hdepth, Slot.take, room_eq_zero hdepth, Written.keep]
      rfl
  | skipped =>
    refine (advance_passed_array h frame below rest).trans ?_
    rw [Slot.take, Written.passes]
    cases Written.passesItems items <;> rfl
  | text | table => rfl

theorem takes_object (h : ∀ m ∈ members, Takes fields m.2) : Takes fields (.object members) := by
  intro frame below phase rest hphase
  rw [Written.tokens, Written.memberTokens_eq, List.cons_append, List.cons_append,
    List.append_assoc, List.singleton_append, advance_cons, step_value hphase (by simp), takeValue]
  cases frame.slot fields with
  | any | table =>
    by_cases hdepth : (frame :: below).length < depthBound
    · rw [nest, if_pos hdepth, Slot.take, room_eq hdepth, Written.keep, Option.bind_map]
      exact advance_kept_object h frame below rest
    · rw [nest, if_neg hdepth, Slot.take, room_eq_zero hdepth, Written.keep]
      rfl
  | skipped =>
    refine (advance_passed_object h frame below rest).trans ?_
    rw [Slot.take, Written.passes]
    cases Written.passesMembers members <;> rfl
  | text => rfl

theorem takes (w : Written) : Takes fields w := by
  induction w using Written.induct with
  | scalar kept skipped => exact takes_scalar kept skipped
  | string s => exact takes_string s
  | array items ih => exact takes_array ih
  | object members ih => exact takes_object ih

end

end State

end ImportLedger.Json
