import ImportLedger.Proofs.JsonLexemes
import ImportLedger.Proofs.JsonValues

/-! Values written over several lines. Two values without doubles that are written alike are
the same value. -/

namespace ImportLedger.Json

theorem prettyItems_eq_map (level : Nat) (items : List Json) :
    prettyItems level items = items.map (prettyText level) := by
  induction items with
  | nil => rfl
  | cons v items ih => rw [prettyItems, ih, List.map_cons]

def prettyMember (level : Nat) (m : String × Json) : List Char :=
  quoted m.1 ++ ':' :: ' ' :: prettyText level m.2

theorem prettyMembers_eq_map (level : Nat) (members : Members) :
    prettyMembers level members = members.map (prettyMember level) := by
  induction members with
  | nil => rfl
  | cons m members ih =>
    obtain ⟨k, v⟩ := m
    rw [prettyMembers, ih, List.map_cons, prettyMember]

section Parts

variable {α : Type} {write : α → List Char}

/-- What can stand behind a value tells whether a written part is over. -/
def ReadsOff (write : α → List Char) (a b : α) : Prop :=
  ∀ ⦃s t : List Char⦄, Follows s → Follows t → write a ++ s = write b ++ t → a = b ∧ s = t

theorem joined_cons_cons (separator p q : List Char) (parts : List (List Char)) :
    joined separator (p :: q :: parts) = p ++ (separator ++ joined separator (q :: parts)) := by
  rw [joined, List.append_assoc]
  simp

theorem joined_append_inj {gap : List Char} {l l' : List α}
    (hr : ∀ a ∈ l, ∀ b ∈ l', ReadsOff write a b) (hl : l ≠ []) (hl' : l' ≠ []) {s t : List Char}
    (h : joined (',' :: gap) (l.map write) ++ '\n' :: s =
      joined (',' :: gap) (l'.map write) ++ '\n' :: t) : l = l' ∧ s = t := by
  have hbreak (s : List Char) : Follows ('\n' :: s) := follows_cons.mpr (by simp)
  have hcomma (s : List Char) : Follows (',' :: s) := follows_cons.mpr (by simp)
  induction l generalizing l' with
  | nil => exact absurd rfl hl
  | cons a l ih =>
    cases l' with
    | nil => exact absurd rfl hl'
    | cons b l' =>
      have hab := hr a (by simp) b (by simp)
      cases l with
      | nil =>
        cases l' with
        | nil =>
          obtain ⟨rfl, hrest⟩ := hab (hbreak _) (hbreak _) h
          exact ⟨rfl, (List.cons.inj hrest).2⟩
        | cons b' l' =>
          -- One list is over where the other goes on: a line break is no comma.
          simp only [List.map_cons, joined_cons_cons, List.append_assoc, List.cons_append] at h
          have hmark := (hab (hbreak _) (hcomma _) h).2
          exact absurd (List.cons.inj hmark).1 (by decide)
      | cons a' l =>
        cases l' with
        | nil =>
          simp only [List.map_cons, joined_cons_cons, List.append_assoc, List.cons_append] at h
          have hmark := (hab (hcomma _) (hbreak _) h).2
          exact absurd (List.cons.inj hmark).1 (by decide)
        | cons b' l' =>
          simp only [List.map_cons, joined_cons_cons, List.append_assoc, List.cons_append] at h
          obtain ⟨rfl, htail⟩ := hab (hcomma _) (hcomma _) h
          have hrest := List.append_cancel_left (List.cons.inj htail).2
          have hr' : ∀ x ∈ a' :: l, ∀ y ∈ b' :: l', ReadsOff write x y := fun x hx y hy =>
            hr x (List.mem_cons_of_mem _ hx) y (List.mem_cons_of_mem _ hy)
          obtain ⟨he, hst⟩ := ih hr' (by simp) (by simp) hrest
          exact ⟨congrArg _ he, hst⟩

theorem block_append_inj {level : Nat} {opening closing : Char} (hc : closing ≠ '\n')
    {l l' : List α} (hr : ∀ a ∈ l, ∀ b ∈ l', ReadsOff write a b) {s t : List Char}
    (h : block level opening closing (l.map write) ++ s =
      block level opening closing (l'.map write) ++ t) : l = l' ∧ s = t := by
  have hfilled (a : α) (l : List α) (s : List Char) :
      block level opening closing ((a :: l).map write) ++ s =
        opening :: '\n' :: (List.replicate (2 * (level + 1)) ' ' ++
          (joined (',' :: lineBreak (level + 1)) ((a :: l).map write) ++
            '\n' :: (List.replicate (2 * level) ' ' ++ closing :: s))) := by
    simp [block, lineBreak]
  cases l with
  | nil =>
    cases l' with
    | nil => exact ⟨rfl, (List.cons.inj (List.cons.inj h).2).2⟩
    | cons b l' =>
      rw [hfilled] at h
      exact absurd (List.cons.inj (List.cons.inj h).2).1 hc
  | cons a l =>
    cases l' with
    | nil =>
      rw [hfilled] at h
      exact absurd (List.cons.inj (List.cons.inj h).2).1 (Ne.symm hc)
    | cons b l' =>
      rw [hfilled, hfilled] at h
      have hparts := List.append_cancel_left (List.cons.inj (List.cons.inj h).2).2
      obtain ⟨he, hrest⟩ := joined_append_inj hr (by simp) (by simp) hparts
      exact ⟨he, (List.cons.inj (List.append_cancel_left hrest)).2⟩

end Parts

/-- What the first character of a value tells of it. -/
inductive Kind
  | null
  | bool (b : Bool)
  | number
  | string
  | array
  | object

def Kind.ofLead : Char → Kind
  | 'n' => null
  | 't' => bool true
  | 'f' => bool false
  | '"' => string
  | '[' => array
  | '{' => object
  | _ => number

def kind : Json → Kind
  | null => .null
  | bool b => .bool b
  | integer _ | real _ => .number
  | string _ => .string
  | array _ => .array
  | object _ => .object

theorem ofLead_of_isDigit {c : Char} (h : c.isDigit = true) : Kind.ofLead c = .number := by
  unfold Kind.ofLead
  split <;> first | rfl | exact absurd h (by decide)

theorem exists_lead {v : Json} (hv : v.isExact = true) (level : Nat) :
    ∃ c rest, prettyText level v = c :: rest ∧ Kind.ofLead c = v.kind := by
  have hblock (opening closing : Char) (parts : List (List Char)) :
      ∃ rest, block level opening closing parts = opening :: rest := by
    cases parts with
    | nil => exact ⟨_, rfl⟩
    | cons p parts => exact ⟨_, rfl⟩
  cases v with
  | null => exact ⟨_, _, rfl, rfl⟩
  | bool b => cases b <;> exact ⟨_, _, rfl, rfl⟩
  | integer n =>
    cases n with
    | ofNat n =>
      cases hd : Nat.toDigits 10 n with
      | nil => exact absurd hd Nat.toDigits_ne_nil
      | cons c rest =>
        have hc : c.isDigit = true := isDigit_of_mem_toDigits (by rw [hd]; exact List.mem_cons_self)
        exact ⟨c, rest, hd, ofLead_of_isDigit hc⟩
    | negSucc n => exact ⟨_, _, rfl, rfl⟩
  | real x => cases hv
  | string s => exact ⟨_, _, rfl, rfl⟩
  | array items =>
    obtain ⟨rest, hrest⟩ := hblock '[' ']' (prettyItems (level + 1) items)
    exact ⟨_, rest, hrest, rfl⟩
  | object members =>
    obtain ⟨rest, hrest⟩ := hblock '{' '}' (prettyMembers (level + 1) members)
    exact ⟨_, rest, hrest, rfl⟩

theorem kind_eq {v w : Json} (hv : v.isExact = true) (hw : w.isExact = true) {level : Nat}
    {s t : List Char} (h : prettyText level v ++ s = prettyText level w ++ t) :
    v.kind = w.kind := by
  obtain ⟨c, rest, hc, hk⟩ := exists_lead hv level
  obtain ⟨d, rest', hd, hk'⟩ := exists_lead hw level
  rw [hc, hd] at h
  rw [← hk, ← hk', (List.cons.inj h).1]

theorem readsOff_prettyText {v w : Json} (hv : v.isExact = true) (hw : w.isExact = true)
    (level : Nat) : ReadsOff (prettyText level) v w := by
  induction v using induct generalizing w level with
  | null =>
    intro s t _ _ h
    cases w <;> cases kind_eq hv hw h
    exact ⟨rfl, List.append_cancel_left h⟩
  | bool b =>
    intro s t _ _ h
    cases w <;> cases kind_eq hv hw h
    exact ⟨rfl, List.append_cancel_left h⟩
  | integer m =>
    intro s t hs ht h
    cases w <;> cases kind_eq hv hw h
    · obtain ⟨rfl, rfl⟩ := integerText_append_inj hs ht h
      exact ⟨rfl, rfl⟩
    · cases hw
  | real x => cases hv
  | string a =>
    intro s t _ _ h
    cases w <;> cases kind_eq hv hw h
    obtain ⟨rfl, rfl⟩ := quoted_append_inj h
    exact ⟨rfl, rfl⟩
  | array items ih =>
    intro s t _ _ h
    cases w <;> cases kind_eq hv hw h
    rename_i items'
    simp only [prettyText, prettyItems_eq_map] at h
    have hr : ∀ a ∈ items, ∀ b ∈ items', ReadsOff (prettyText (level + 1)) a b :=
      fun a ha b hb => ih a ha (isExact_array.mp hv a ha) (isExact_array.mp hw b hb) (level + 1)
    obtain ⟨rfl, rfl⟩ := block_append_inj (by decide) hr h
    exact ⟨rfl, rfl⟩
  | object members ih =>
    intro s t _ _ h
    cases w <;> cases kind_eq hv hw h
    rename_i members'
    simp only [prettyText, prettyMembers_eq_map] at h
    have hr : ∀ a ∈ members, ∀ b ∈ members', ReadsOff (prettyMember (level + 1)) a b := by
      intro a ha b hb s t hs ht h
      have hvalue := ih a ha (isExact_object.mp hv a ha) (isExact_object.mp hw b hb) (level + 1)
      simp only [prettyMember, List.append_assoc, List.cons_append] at h
      obtain ⟨hkey, hrest⟩ := quoted_append_inj h
      obtain ⟨hval, hst⟩ := hvalue hs ht (List.cons.inj (List.cons.inj hrest).2).2
      exact ⟨Prod.ext hkey hval, hst⟩
    obtain ⟨rfl, rfl⟩ := block_append_inj (by decide) hr h
    exact ⟨rfl, rfl⟩

theorem eq_of_pretty_eq {v w : Json} (hv : v.isExact = true) (hw : w.isExact = true)
    (h : v.pretty = w.pretty) : v = w := by
  have htext : prettyText 0 v ++ [] = prettyText 0 w ++ [] := by
    rw [List.append_nil, List.append_nil]
    exact String.ofList_injective h
  exact (readsOff_prettyText hv hw 0 follows_nil follows_nil htext).1

end ImportLedger.Json
