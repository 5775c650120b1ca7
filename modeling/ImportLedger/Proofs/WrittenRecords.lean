import ImportLedger.Proofs.RepeatedKeys
import ImportLedger.Proofs.WrittenReading

/-! A record that is written as an object: when it is accepted, and what its fields are then. -/

namespace ImportLedger.Json

abbrev WrittenMembers := List (WrittenString × Written)

namespace Fields

variable {fields : Fields} {m : WrittenString × Written} {members : WrittenMembers}

/-- Unknown members are passed over. -/
def slotOf (fields : Fields) (key : String) : Slot := (fields.lookup key).getD .skipped

/-- What a member adds to the record. -/
def content? (fields : Fields) (m : WrittenString × Written) : Option (String × Json) := do
  let key ← m.1.kept.toOption
  let slot ← fields.lookup key
  let v ← slot.take (room []) m.2
  return (key, v)

/-- The known fields with their values. -/
def contents (fields : Fields) (members : WrittenMembers) : Members :=
  members.filterMap fields.content?

theorem contents_cons (m : WrittenString × Written) (members : WrittenMembers) :
    fields.contents (m :: members) = (fields.content? m).toList ++ fields.contents members := by
  cases h : fields.content? m <;> simp [contents, h]

/-- Whether a member fits its slot. -/
def Fits (fields : Fields) (m : WrittenString × Written) : Prop :=
  ∃ key v, m.1.kept = .ok key ∧ (fields.slotOf key).take (room []) m.2 = some v

/-- Whether two members give the same known field. -/
def Clash (fields : Fields) (m m' : WrittenString × Written) : Prop :=
  ∃ key, (fields.lookup key).isSome ∧ m.1.kept = .ok key ∧ m'.1.kept = .ok key

/-- Whether a record with these members is accepted. -/
structure Admits (fields : Fields) (members : WrittenMembers) : Prop where
  fits : ∀ m ∈ members, fields.Fits m
  once : members.Pairwise fun m m' => ¬fields.Clash m m'

/-- Reads one member, where some have been read and the last key is at hand. -/
def readMember (fields : Fields) (s : Members × String) (m : WrittenString × Written) :
    Option (Members × String) := do
  let key ← m.1.kept.toOption
  if (fields.lookup key).isSome && (s.1.lookup key).isSome then none
  else do
    let v ← (fields.slotOf key).take (room []) m.2
    return (if (fields.lookup key).isSome then s.1 ++ [(key, v)] else s.1, key)

/-- Whether a member gives none of the fields that have been read. -/
def Fresh (fields : Fields) (read : Members) (m : WrittenString × Written) : Prop :=
  ∀ key, (fields.lookup key).isSome → m.1.kept = .ok key → read.lookup key = none

theorem readMember_eq_some {s s' : Members × String} :
    fields.readMember s m = some s' ↔ ∃ key v, m.1.kept = .ok key ∧
      (fields.slotOf key).take (room []) m.2 = some v ∧ fields.Fresh s.1 m ∧
      (s.1 ++ (fields.content? m).toList, key) = s' := by
  obtain ⟨⟨kept, skipped⟩, w⟩ := m
  cases kept with
  | error fault => simp [readMember, Except.toOption]
  | ok key =>
    cases hslot : fields.lookup key with
    | none =>
      have hfresh : fields.Fresh s.1 (⟨.ok key, skipped⟩, w) := by
        intro key' hknown hkey
        obtain rfl := Except.ok.inj hkey
        simp [hslot] at hknown
      cases hv : Slot.skipped.take (room []) w <;>
        simp [readMember, Except.toOption, slotOf, content?, hslot, hfresh, hv]
    | some slot =>
      have hfresh : fields.Fresh s.1 (⟨.ok key, skipped⟩, w) ↔ s.1.lookup key = none := by
        refine ⟨fun h => h key (by simp [hslot]) rfl, fun h key' _ hkey => ?_⟩
        obtain rfl := Except.ok.inj hkey
        exact h
      cases hv : slot.take (room []) w <;> cases hread : s.1.lookup key <;>
        simp only [hfresh, hread] <;>
        simp [readMember, Except.toOption, slotOf, content?, hslot, hv, hread]

theorem lookup_content? {key key' : String} {v : Json} (hkey : m.1.kept = .ok key)
    (hv : (fields.slotOf key).take (room []) m.2 = some v)
    (hknown : (fields.lookup key').isSome) :
    (fields.content? m).toList.lookup key' = if key' = key then some v else none := by
  by_cases h : key' = key
  · subst h
    obtain ⟨slot, hslot⟩ := Option.isSome_iff_exists.mp hknown
    rw [slotOf, hslot, Option.getD_some] at hv
    simp [content?, hkey, Except.toOption, hslot, hv]
  · rw [if_neg h]
    cases hs : fields.lookup key with
    | none => simp [content?, hkey, Except.toOption, hs]
    | some slot =>
      rw [slotOf, hs, Option.getD_some] at hv
      simp [content?, hkey, Except.toOption, hs, hv, lookup_cons_eq, h]

theorem fresh_append (hm : fields.Fits m) (read : Members) (m' : WrittenString × Written) :
    fields.Fresh (read ++ (fields.content? m).toList) m' ↔
      fields.Fresh read m' ∧ ¬fields.Clash m m' := by
  obtain ⟨key, v, hkey, hv⟩ := hm
  refine ⟨fun h => ⟨fun key' hknown hkey' => ?_, fun hclash => ?_⟩, fun h key' hknown hkey' => ?_⟩
  · have hnone := h key' hknown hkey'
    rw [List.lookup_append, Option.or_eq_none_iff] at hnone
    exact hnone.1
  · obtain ⟨key', hknown, hk, hkey'⟩ := hclash
    have hnone := h key' hknown hkey'
    rw [List.lookup_append, Option.or_eq_none_iff, lookup_content? hkey hv hknown] at hnone
    rw [hkey] at hk
    simp [Except.ok.inj hk] at hnone
  · have hne : key' ≠ key := fun he => h.2 ⟨key', hknown, he ▸ hkey, hkey'⟩
    rw [List.lookup_append, h.1 key' hknown hkey', lookup_content? hkey hv hknown, if_neg hne]
    rfl

theorem not_clash_of_keys (h : members.Pairwise fun m m' => m.1.kept ≠ m'.1.kept) :
    members.Pairwise fun m m' => ¬fields.Clash m m' := by
  refine h.imp fun hne hclash => ?_
  obtain ⟨key, -, hkey, hkey'⟩ := hclash
  exact hne (hkey.trans hkey'.symm)

theorem admits_cons :
    fields.Admits (m :: members) ↔
      fields.Fits m ∧ (∀ m' ∈ members, ¬fields.Clash m m') ∧ fields.Admits members := by
  constructor
  · intro h
    have honce := List.pairwise_cons.mp h.once
    exact ⟨h.fits m List.mem_cons_self, honce.1, fun m' hm => h.fits m' (List.mem_cons_of_mem _ hm),
      honce.2⟩
  · rintro ⟨hm, hclash, h⟩
    exact ⟨List.forall_mem_cons.mpr ⟨hm, h.fits⟩, List.pairwise_cons.mpr ⟨hclash, h.once⟩⟩

theorem readMembers_eq_some {s : Members × String} {read : Members} :
    (members.foldlM fields.readMember s).map (·.1) = some read ↔
      fields.Admits members ∧ (∀ m ∈ members, fields.Fresh s.1 m) ∧
        s.1 ++ fields.contents members = read := by
  induction members generalizing s with
  | nil =>
    have hnone : fields.Admits [] := ⟨fun _ hm => absurd hm List.not_mem_nil, .nil⟩
    simp [hnone, contents]
  | cons m members ih =>
    rw [List.foldlM_cons, contents_cons, ← List.append_assoc, admits_cons, List.forall_mem_cons]
    constructor
    · intro h
      obtain ⟨⟨_, key'⟩, hrun, rfl⟩ := Option.map_eq_some_iff.mp h
      obtain ⟨s', hstep, hrest⟩ := Option.bind_eq_some_iff.mp hrun
      obtain ⟨key, v, hkey, hv, hfresh, rfl⟩ := readMember_eq_some.mp hstep
      obtain ⟨hadmits, hfreshes, heq⟩ := ih.mp (Option.map_eq_some_iff.mpr ⟨_, hrest, rfl⟩)
      have hm : fields.Fits m := ⟨key, v, hkey, hv⟩
      have hboth := fun m' hm' => (fresh_append hm s.1 m').mp (hfreshes m' hm')
      exact ⟨⟨hm, fun m' hm' => (hboth m' hm').2, hadmits⟩,
        ⟨hfresh, fun m' hm' => (hboth m' hm').1⟩, heq⟩
    · rintro ⟨⟨hm, hclash, hadmits⟩, ⟨hfresh, hfreshes⟩, heq⟩
      have hboth : ∀ m' ∈ members, fields.Fresh (s.1 ++ (fields.content? m).toList) m' :=
        fun m' hm' => (fresh_append hm s.1 m').mpr ⟨hfreshes m' hm', hclash m' hm'⟩
      obtain ⟨key, v, hkey, hv⟩ := hm
      have hstep : fields.readMember s m = some (s.1 ++ (fields.content? m).toList, key) :=
        readMember_eq_some.mpr ⟨key, v, hkey, hv, hfresh, rfl⟩
      rw [hstep]
      exact ih.mpr ⟨hadmits, hboth, heq⟩

theorem gathers_record :
    State.Gathers (fun s : Members × String => Frame.record s.1 s.2) true where
  bracket _ := rfl
  comma _ _ := rfl

theorem readsPart_member (m : WrittenString × Written) :
    State.ReadsPart fields (fun s : Members × String => Frame.record s.1 s.2) true [] Written.member
      fields.readMember m := by
  intro s phase rest hphase
  rw [State.advance_member (State.takes m.2) hphase]
  obtain ⟨⟨kept, skipped⟩, w⟩ := m
  cases kept with
  | error fault => rfl
  | ok key =>
    cases htwice : (fields.lookup key).isSome && (s.1.lookup key).isSome with
    | true =>
      simp [Frame.withKey, readMember, Except.toOption, bind, Except.bind, htwice]
    | false =>
      have hframe : (Frame.record s.1 s.2).withKey fields (.ok key) skipped =
          .ok (.record s.1 key) := by
        simp [Frame.withKey, bind, Except.bind, htwice]
      have hmember : fields.readMember s (⟨.ok key, skipped⟩, w) =
          ((fields.slotOf key).take (room []) w).map fun v =>
            (if (fields.lookup key).isSome then s.1 ++ [(key, v)] else s.1, key) := by
        change (if (fields.lookup key).isSome && (s.1.lookup key).isSome then none else _) = _
        rw [htwice]
        cases (fields.slotOf key).take (room []) w <;> rfl
      rw [hframe, hmember, Option.bind_map]
      change (((fields.slotOf key).take (room []) w).bind fun v =>
        State.advance fields (State.settle fields v (.record s.1 key) []) rest) = _
      refine congrArg _ (funext fun v => ?_)
      rw [State.settle, Frame.accept, Function.comp]
      cases (fields.lookup key).isSome <;> rfl

/-- A text that is an object is read as a record exactly when the record admits its members, and
then as the known ones of them. -/
theorem readRecord_written {text : String}
    (h : Token.ofText text.toList = (Written.object members).tokens) {read : Members} :
    readRecord fields text = .ok read ↔
      fields.Admits members ∧ fields.contents members = read := by
  have hrun : State.advance fields .start (Written.object members).tokens =
      ((members.foldlM fields.readMember ([], "")).map (·.1)).map State.finished := by
    rw [Written.tokens, Written.memberTokens_eq, List.cons_append, State.advance_cons]
    refine (State.advance_bracket gathers_record (fun m _ => readsPart_member m)
      ([], "") []).trans ?_
    cases members.foldlM fields.readMember ([], "") <;> rfl
  have hread : (readRecord fields text).toOption =
      (members.foldlM fields.readMember ([], "")).map (·.1) := by
    rw [readRecord, toOption_bind, h]
    change (State.advance fields .start _).bind _ = _
    rw [hrun, Option.map_map]
    cases members.foldlM fields.readMember ([], "") <;> rfl
  have hfresh : ∀ m ∈ members, fields.Fresh [] m := fun _ _ _ _ _ => rfl
  have hiff : (members.foldlM fields.readMember ([], "")).map (·.1) = some read ↔ _ :=
    readMembers_eq_some
  rw [← hread] at hiff
  constructor
  · intro hok
    obtain ⟨hadmits, -, heq⟩ := hiff.mp (by rw [hok]; rfl)
    exact ⟨hadmits, heq⟩
  · rintro ⟨hadmits, heq⟩
    exact ok_of_toOption (hiff.mpr ⟨hadmits, hfresh, heq⟩)

/-- The value that is given to a field. -/
def given? (key : String) (members : WrittenMembers) : Option Written :=
  (members.find? fun m => m.1.kept.toOption == some key).map (·.2)

theorem take_of_given? (h : ∀ m ∈ members, fields.Fits m) {key : String} {slot : Slot}
    (hslot : fields.lookup key = some slot) {w : Written} (hw : given? key members = some w) :
    ∃ v, slot.take (room []) w = some v := by
  obtain ⟨m, hfind, rfl⟩ := Option.map_eq_some_iff.mp hw
  obtain ⟨key', v, hkey, hv⟩ := h m (List.mem_of_find?_eq_some hfind)
  have hsame : key' = key := by
    have hfound := List.find?_some hfind
    simpa [hkey, Except.toOption] using hfound
  rw [hsame, slotOf, hslot, Option.getD_some] at hv
  exact ⟨v, hv⟩

theorem given?_cons {key' : String} (key : String) (hm : m.1.kept.toOption = some key') :
    given? key (m :: members) = if key = key' then some m.2 else given? key members := by
  by_cases h : key = key'
  · simp [given?, hm, h]
  · simp [given?, hm, h, Ne.symm h]

theorem lookup_contents (h : ∀ m ∈ members, fields.Fits m) {key : String} {slot : Slot}
    (hslot : fields.lookup key = some slot) :
    (fields.contents members).lookup key = (given? key members).bind (slot.take (room [])) := by
  induction members with
  | nil => rfl
  | cons m members ih =>
    obtain ⟨key', v, hkey, hv⟩ := h m List.mem_cons_self
    have hrest := ih fun m' hm => h m' (List.mem_cons_of_mem _ hm)
    rw [contents_cons, List.lookup_append, lookup_content? hkey hv (by simp [hslot]), hrest,
      given?_cons key (congrArg Except.toOption hkey)]
    by_cases he : key = key'
    · subst he
      rw [slotOf, hslot, Option.getD_some] at hv
      rw [if_pos rfl, if_pos rfl]
      exact hv.symm
    · rw [if_neg he, if_neg he, Option.none_or]

end Fields

end ImportLedger.Json
