import ImportLedger.Proofs.JsonText
import ImportLedger.Proofs.JsonTokens
import ImportLedger.Proofs.WrittenRecords
import Mathlib.Data.List.Basic

/-! Reading back what was written without blanks. -/

namespace ImportLedger.Json

theorem compactItems_eq_map (items : List Json) : compactItems items = items.map compactText := by
  induction items with
  | nil => rfl
  | cons v items ih => rw [compactItems, ih, List.map_cons]

def compactMember (m : String × Json) : List Char := quoted m.1 ++ ':' :: compactText m.2

theorem compactMembers_eq_map (members : Members) :
    compactMembers members = members.map compactMember := by
  induction members with
  | nil => rfl
  | cons m members ih =>
    obtain ⟨k, v⟩ := m
    rw [compactMembers, ih, List.map_cons, compactMember]

/-- Whether a slot takes a value. -/
def Slot.Admits : Slot → Json → Prop
  | any, _ => True
  | text, v => v = null ∨ ∃ s, v = string s
  | table, v => v = null ∨ ∃ members, v = object members
  | skipped, _ => False

/-- What a field may be for the record to be written and read back. -/
structure Slot.Fits (slot : Slot) (v : Json) : Prop where
  admits : slot.Admits v
  kept : Kept (room []) v
  exact : v.isExact = true

namespace Written

mutual

/-- A value as it is written out. -/
def ofJson : Json → Written
  | .string s => string ⟨.ok s, .ok ()⟩
  | .array items => array (ofItems items)
  | .object members => object (ofMembers members)
  | v => scalar (.ok v) (.ok ())

def ofItems : List Json → List Written
  | [] => []
  | v :: rest => ofJson v :: ofItems rest

def ofMembers : List (String × Json) → List (WrittenString × Written)
  | [] => []
  | (k, v) :: rest => (⟨.ok k, .ok ()⟩, ofJson v) :: ofMembers rest

end

def ofMember (m : String × Json) : WrittenString × Written := (⟨.ok m.1, .ok ()⟩, ofJson m.2)

theorem ofItems_eq_map (items : List Json) : ofItems items = items.map ofJson := by
  induction items with
  | nil => rfl
  | cons v items ih => rw [ofItems, ih, List.map_cons]

theorem ofMembers_eq_map (members : Members) : ofMembers members = members.map ofMember := by
  induction members with
  | nil => rfl
  | cons m members ih =>
    obtain ⟨k, v⟩ := m
    rw [ofMembers, ih, List.map_cons, ofMember]

theorem mapM_map_eq_some {α β : Type} {f : α → β} {g : β → Option α} {l : List α}
    (h : ∀ a ∈ l, g (f a) = some a) : (l.map f).mapM g = some l := by
  induction l with
  | nil => rfl
  | cons a l ih =>
    rw [List.map_cons, List.mapM_cons, h a List.mem_cons_self,
      ih fun b hb => h b (List.mem_cons_of_mem _ hb)]
    rfl

theorem keep_ofJson {n : Nat} {v : Json} (h : Kept n v) : (ofJson v).keep n = some v := by
  induction h with
  | null | bool | integer | real | string => rfl
  | array _ ih =>
    rw [ofJson, ofItems_eq_map, keep, keepItems_eq, mapM_map_eq_some ih, Option.map_some]
  | object hkeys _ ih =>
    have hmembers : ∀ m ∈ _, keepMember _ (ofMember m) = some m := fun m hm => by
      rw [keepMember, ofMember, ih m hm]
      rfl
    rw [ofJson, ofMembers_eq_map, keep, keepMembers_eq, mapM_map_eq_some hmembers,
      Option.map_some, ofEntries_of_nodup hkeys]

theorem take_ofJson {n : Nat} {slot : Slot} {v : Json} (hslot : slot.Admits v)
    (h : Kept n v) : slot.take n (ofJson v) = some v := by
  cases slot with
  | any => exact keep_ofJson h
  | text => rcases hslot with rfl | ⟨s, rfl⟩ <;> rfl
  | table =>
    rcases hslot with rfl | ⟨members, rfl⟩
    · rfl
    · exact keep_ofJson h
  | skipped => exact hslot.elim

end Written

theorem ofText_mark {c : Char} {rest : List Char} {token : Token}
    (hspace : Token.isSpace c = false) (h : Token.begun c rest = (token, rest)) :
    Token.ofText (c :: rest) = token :: Token.ofText rest := by
  rw [Token.ofText_cons hspace, h]

/-- Parts with commas between them are read one after another. -/
theorem ofText_joined {α : Type} {text : α → List Char} {tokens : α → List Token} {parts : List α}
    (h : ∀ a ∈ parts, ∀ rest, Follows rest →
      Token.ofText (text a ++ rest) = tokens a ++ Token.ofText rest)
    {rest : List Char} (hrest : Follows rest) :
    Token.ofText (joined [','] (parts.map text) ++ rest) =
      Token.separated (parts.map tokens) ++ Token.ofText rest := by
  induction parts with
  | nil => rfl
  | cons a parts ih =>
    cases parts with
    | nil =>
      rw [List.map_singleton, List.map_singleton, joined, Token.separated,
        List.intercalate_singleton]
      exact h a List.mem_cons_self rest hrest
    | cons b parts =>
      have hcomma (s : List Char) : Follows (',' :: s) := follows_cons.mpr (by simp)
      have hnext := ih fun c hc => h c (List.mem_cons_of_mem _ hc)
      rw [List.map_cons] at hnext
      simp only [List.map_cons, joined_cons_cons, List.append_assoc, List.cons_append,
        List.nil_append, Token.separated, List.intercalate_cons_cons]
      rw [h a List.mem_cons_self _ (hcomma _), ofText_mark (by decide) rfl, hnext]
      rfl

theorem ofText_compactText {n : Nat} {v : Json} (hkept : Kept n v) (hexact : v.isExact = true)
    {rest : List Char} (hrest : Follows rest) :
    Token.ofText (compactText v ++ rest) = (Written.ofJson v).tokens ++ Token.ofText rest := by
  induction hkept generalizing rest with
  | null =>
    have htext : compactText .null = ['n', 'u', 'l', 'l'] := by decide
    rw [htext]
    exact ofText_word (by decide) (fun _ => rfl) rest
  | bool b =>
    cases b with
    | false =>
      have htext : compactText (.bool false) = ['f', 'a', 'l', 's', 'e'] := by decide
      rw [htext]
      exact ofText_word (by decide) (fun _ => rfl) rest
    | true =>
      have htext : compactText (.bool true) = ['t', 'r', 'u', 'e'] := by decide
      rw [htext]
      exact ofText_word (by decide) (fun _ => rfl) rest
  | integer h => exact ofText_integer h hrest
  | real x => cases hexact
  | string s => exact ofText_quoted s rest
  | @array n items _ ih =>
    have hend : Follows (']' :: rest) := follows_cons.mpr (by simp)
    have hitems := ofText_joined (fun v hv _ hs => ih v hv (isExact_array.mp hexact v hv) hs) hend
    rw [compactText, compactItems_eq_map, List.append_assoc, List.cons_append,
      ofText_mark (by decide) rfl, List.singleton_append, hitems, ofText_mark (by decide) rfl,
      Written.ofJson, Written.tokens, Written.itemTokens_eq, Written.ofItems_eq_map]
    simp [Function.comp_def]
  | @object n members _ _ ih =>
    have hmember : ∀ m ∈ members, ∀ s, Follows s →
        Token.ofText (compactMember m ++ s) =
          Written.member (Written.ofMember m) ++ Token.ofText s := by
      intro m hm s hs
      rw [compactMember, List.append_assoc, ofText_quoted, List.cons_append,
        ofText_mark (by decide) rfl, ih m hm (isExact_object.mp hexact m hm) hs]
      rfl
    have hend : Follows ('}' :: rest) := follows_cons.mpr (by simp)
    rw [compactText, compactMembers_eq_map, List.append_assoc, List.cons_append,
      ofText_mark (by decide) rfl, List.singleton_append, ofText_joined hmember hend,
      ofText_mark (by decide) rfl, Written.ofJson, Written.tokens, Written.memberTokens_eq,
      Written.ofMembers_eq_map]
    simp [Function.comp_def]

/-- A record that is written without blanks, with known fields only, is read back. -/
theorem readRecord_compact {fields : Fields} {members : Members}
    (hkeys : (members.map (·.1)).Nodup)
    (hfits : ∀ m ∈ members, ∃ slot : Slot, fields.lookup m.1 = some slot ∧ slot.Fits m.2) :
    readRecord fields (object members).compact = .ok members := by
  have hkept : Kept (room [] + 1) (object members) := by
    refine .object hkeys fun m hm => ?_
    obtain ⟨_, -, hfit⟩ := hfits m hm
    exact hfit.kept
  have hexact : (object members).isExact = true := by
    refine isExact_object.mpr fun m hm => ?_
    obtain ⟨_, -, hfit⟩ := hfits m hm
    exact hfit.exact
  have htokens : Token.ofText (object members).compact.toList =
      (Written.object (members.map Written.ofMember)).tokens := by
    have hread := ofText_compactText hkept hexact follows_nil
    rw [Written.ofJson, Written.ofMembers_eq_map, List.append_nil] at hread
    rw [compact, String.toList_ofList, hread]
    simp [Token.ofText]
  have hmember : ∀ m ∈ members, fields.Fits (Written.ofMember m) ∧
      fields.content? (Written.ofMember m) = some m := by
    intro m hm
    obtain ⟨slot, hslot, hfit⟩ := hfits m hm
    have htake := Written.take_ofJson hfit.admits hfit.kept
    refine ⟨⟨m.1, m.2, rfl, ?_⟩, ?_⟩
    · rw [Fields.slotOf, hslot]
      exact htake
    · simp [Fields.content?, Written.ofMember, Except.toOption, hslot, htake]
  have honce : (members.map Written.ofMember).Pairwise fun m m' => m.1.kept ≠ m'.1.kept := by
    rw [List.pairwise_map]
    refine (List.pairwise_map.mp hkeys).imp fun hne he => hne (Except.ok.inj he)
  refine (Fields.readRecord_written htokens).mpr ⟨⟨?_, Fields.not_clash_of_keys honce⟩, ?_⟩
  · simp only [List.forall_mem_map]
    exact fun m hm => (hmember m hm).1
  · rw [Fields.contents, List.filterMap_map]
    exact (List.filterMap_congr fun m hm => (hmember m hm).2).trans List.filterMap_some

end ImportLedger.Json
