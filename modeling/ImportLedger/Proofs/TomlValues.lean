import ImportLedger.Proofs.TomlLines

/-! Values of settings as they may be written: strings between double quotes, truth values, and
lists of such strings. -/

namespace ImportLedger.Toml

open Reader

/-- Blanks and line ends, as they may stand between the items of a list. -/
def IsGap (s : List Char) : Prop := ∀ c ∈ s, c = ' ' ∨ c = '\t' ∨ c = '\n'

/-- A list of strings, and what may stand behind its opening bracket. A comma may stand behind the
last item too. -/
inductive WrittenItems : List String → List Char → Prop
  | nil {gap : List Char} (h : IsGap gap) : WrittenItems [] (gap ++ [']'])
  | last {item : String} {before text behind : List Char} (hbefore : IsGap before)
    (h : BasicString item.toList text) (hbehind : IsGap behind) :
    WrittenItems [item] (before ++ '"' :: (text ++ (behind ++ [']'])))
  | cons {item : String} {items : List String} {before text behind later : List Char}
    (hbefore : IsGap before) (h : BasicString item.toList text) (hbehind : IsGap behind)
    (hlater : WrittenItems items later) :
    WrittenItems (item :: items) (before ++ '"' :: (text ++ (behind ++ ',' :: later)))

inductive WrittenValue : Toml → List Char → Prop
  | string {s : String} {text : List Char} (h : BasicString s.toList text) :
    WrittenValue (.string s) ('"' :: text)
  | yes : WrittenValue (.boolean true) ['t', 'r', 'u', 'e']
  | no : WrittenValue (.boolean false) ['f', 'a', 'l', 's', 'e']
  | array {items : List String} {text : List Char} (h : WrittenItems items text) :
    WrittenValue (.array (items.map .string)) ('[' :: text)

/-- The value of a bare key on one line. -/
inductive WrittenLine (name : String) (value : Toml) : List Char → Prop
  | intro {before behind text : List Char} (hbefore : ∀ c ∈ before, isSpace c = true)
    (hbehind : ∀ c ∈ behind, isSpace c = true) (h : WrittenValue value text) :
    WrittenLine name value (name.toList ++ (before ++ '=' :: (behind ++ text)))

variable {name : String} {items : List String} {gap text : List Char} {v : Toml}

theorem skipFiller_append (h : IsGap gap) (s : List Char) :
    skipFiller false (gap ++ s) = skipFiller false s := by
  induction gap with
  | nil => rfl
  | cons c gap ih =>
    have hrest := ih fun d hd => h d (List.mem_cons_of_mem _ hd)
    rcases h c List.mem_cons_self with rfl | rfl | rfl <;> exact hrest

theorem head?_gap_append (h : IsGap gap) {c : Char} (hc : c ≠ '"') (s : List Char) :
    (gap ++ c :: s).head? ≠ some '"' := by
  cases gap with
  | nil => simpa using hc
  | cons d gap =>
    rcases h d List.mem_cons_self with rfl | rfl | rfl <;> simp

theorem value_string {item : String} (h : BasicString item.toList text) {rest : List Char}
    (hrest : rest.head? ≠ some '"') (fuel level : Nat) :
    value (fuel + 1) level ('"' :: (text ++ rest)) = some (.string item, rest) := by
  rw [value]
  · rw [scalar, string_append h hrest, String.ofList_toList]
    rfl
  · simp
  · simp

/-- One item. The list ends or goes on behind it. -/
theorem items_item {item : String} (hgap : IsGap gap) (h : BasicString item.toList text)
    {rest : List Char} (hrest : rest.head? ≠ some '"') (fuel level : Nat) (before : List Toml)
    (later : List Char) :
    (skipFiller false rest = ']' :: later →
      Reader.items (fuel + 2) level before (gap ++ '"' :: (text ++ rest)) =
        some (.array (before ++ [.string item]), later)) ∧
    (skipFiller false rest = ',' :: later →
      Reader.items (fuel + 2) level before (gap ++ '"' :: (text ++ rest)) =
        Reader.items (fuel + 1) level (before ++ [.string item]) later) := by
  have hopen : skipFiller false ('"' :: (text ++ rest)) = '"' :: (text ++ rest) := rfl
  have hvalue := value_string h hrest fuel level
  constructor <;> intro hlater
  all_goals
    rw [Reader.items, skipFiller_append hgap, hopen]
    simp [hvalue, hlater]

theorem items_append (h : WrittenItems items text) {fuel : Nat} (hfuel : items.length + 1 < fuel)
    (level : Nat) (before : List Toml) (rest : List Char) :
    Reader.items fuel level before (text ++ rest) =
      some (.array (before ++ items.map .string), rest) := by
  obtain ⟨fuel, rfl⟩ := Nat.exists_eq_add_of_le' (show 2 ≤ fuel by omega)
  -- Each item takes one step of the fuel, its value another one.
  induction h generalizing fuel before with
  | @nil gap h =>
    rw [Reader.items, List.append_assoc, skipFiller_append h]
    simp [skipFiller, isSpace]
  | @last item gap text behind hbefore h hbehind =>
    have hitem := (items_item hbefore h (head?_gap_append hbehind (by decide : ']' ≠ '"') rest)
      fuel level before rest).1 (skipFiller_append hbehind _)
    simpa using hitem
  | @cons item items gap text behind later hbefore h hbehind hlater ih =>
    obtain ⟨fuel, rfl⟩ := Nat.exists_eq_add_one_of_ne_zero
      (show fuel ≠ 0 by simp only [List.length_cons] at hfuel; omega)
    have hitem := (items_item hbefore h
      (head?_gap_append hbehind (by decide : ',' ≠ '"') (later ++ rest)) (fuel + 1) level before
      (later ++ rest)).2 (skipFiller_append hbehind _)
    have hrest := ih (before ++ [.string item]) fuel (by simpa using hfuel)
    simpa [hrest] using hitem

theorem length_lt_of_writtenItems (h : WrittenItems items text) : items.length < text.length := by
  induction h with
  | nil => simp
  | last =>
    simp only [List.length_cons, List.length_append, List.length_nil]
    omega
  | cons _ _ _ _ ih =>
    simp only [List.length_cons, List.length_append]
    omega

theorem anyValue_append (h : WrittenValue v text) {rest : List Char}
    (hrest : rest.head? ≠ some '"') : anyValue (text ++ rest) = some (v, rest) := by
  rw [anyValue]
  cases h with
  | string h => exact value_string h hrest _ _
  | yes => rfl
  | no => rfl
  | @array items text h =>
    have hlen := length_lt_of_writtenItems h
    rw [List.cons_append, value, if_pos (by decide), items_append h]
    · rfl
    · simp only [List.length_cons, List.length_append]
      omega

theorem exists_writtenItems (items : List String) : ∃ text, WrittenItems items text := by
  have hgap : IsGap [] := by simp [IsGap]
  induction items with
  | nil => exact ⟨_, .nil hgap⟩
  | cons item items ih =>
    obtain ⟨text, h⟩ := ih
    exact ⟨_, .cons hgap (basicString_escaped _) hgap h⟩

theorem exists_writtenLine (h : ∃ text, WrittenValue v text) (name : String) :
    ∃ text, WrittenLine name v text := by
  obtain ⟨text, h⟩ := h
  have hblanks : ∀ c ∈ [], isSpace c = true := by simp
  exact ⟨_, .intro hblanks hblanks h⟩

theorem skipSpaces_writtenValue (h : WrittenValue v text) (rest : List Char) :
    skipSpaces (text ++ rest) = text ++ rest := by
  cases h <;> rfl

/-- A key that needs no quotes. -/
def IsBare (name : String) : Prop := name ≠ "" ∧ ∀ c ∈ name.toList, isBareKey c = true

theorem not_isBareKey_of_isSpace {c : Char} (h : isSpace c = true) : isBareKey c = false := by
  rcases (by simpa [isSpace] using h : c = ' ' ∨ c = '\t') with rfl | rfl <;> decide

theorem IsBare.exists_cons (h : IsBare name) :
    ∃ c later, name.toList = c :: later ∧ isBareKey c = true := by
  obtain ⟨c, later, he⟩ := List.exists_cons_of_ne_nil (by simpa using h.1 : name.toList ≠ [])
  exact ⟨c, later, he, h.2 c (he ▸ List.mem_cons_self)⟩

theorem IsBare.head?_ne (h : IsBare name) {c : Char} (hc : isBareKey c = false) (s : List Char) :
    (name.toList ++ s).head? ≠ some c := by
  obtain ⟨d, later, he, hd⟩ := h.exists_cons
  rw [he]
  rintro hhead
  obtain rfl := Option.some.inj hhead
  rw [hc] at hd
  cases hd

section Keys

variable {blanks : List Char} (h : IsBare name) (hblanks : ∀ c ∈ blanks, isSpace c = true)
  (rest : List Char)

include h hblanks

theorem keyName_append :
    keyName (name.toList ++ (blanks ++ '=' :: rest)) = some (name, blanks ++ '=' :: rest) := by
  have hcut : (blanks ++ '=' :: rest).takeWhile isBareKey = [] ∧
      (blanks ++ '=' :: rest).dropWhile isBareKey = blanks ++ '=' :: rest := by
    cases blanks with
    | nil => exact ⟨rfl, rfl⟩
    | cons c blanks => simp [not_isBareKey_of_isSpace (hblanks c List.mem_cons_self)]
  have htake : (name.toList ++ (blanks ++ '=' :: rest)).takeWhile isBareKey = name.toList := by
    rw [List.takeWhile_append_of_pos h.2, hcut.1, List.append_nil]
  obtain ⟨c, later, hname, -⟩ := h.exists_cons
  rw [keyName]
  · rw [htake, List.dropWhile_append_of_pos h.2, hcut.2, hname]
    simp only
    rw [← hname, String.ofList_toList]
  · intro s hs
    exact h.head?_ne (by decide : isBareKey '"' = false) _ (congrArg List.head? hs)
  · intro s hs
    exact h.head?_ne (by decide : isBareKey '\'' = false) _ (congrArg List.head? hs)

theorem key_append :
    Reader.key (name.toList ++ (blanks ++ '=' :: rest)) = some (⟨[], name⟩, '=' :: rest) := by
  have hstart : skipSpaces (name.toList ++ (blanks ++ '=' :: rest)) =
      name.toList ++ (blanks ++ '=' :: rest) := by
    obtain ⟨c, later, hname, hc⟩ := h.exists_cons
    have hspace : isSpace c = false := by
      apply Bool.eq_false_iff.mpr
      intro hs
      rw [not_isBareKey_of_isSpace hs] at hc
      cases hc
    simp [skipSpaces, hname, hspace]
  have hend : skipSpaces (blanks ++ '=' :: rest) = '=' :: rest := by
    rw [skipSpaces_append hblanks]
    rfl
  rw [key_eq, keyNames, hstart, keyName_append h hblanks]
  simp [hend]

end Keys

/-- A line that is so written gives the key its value. -/
theorem WrittenLine.gives (hname : IsBare name) (h : WrittenLine name v text) :
    Gives text (⟨[], name⟩, v) := by
  intro rest hrest
  have hquote : rest.head? ≠ some '"' := by
    rcases hrest with rfl | ⟨later, hend⟩
    · simp
    · rcases afterNewline?_eq_some hend with rfl | rfl <;> simp
  cases h with
  | @intro before behind text hbefore hbehind h =>
    simp only [List.append_assoc, List.cons_append]
    rw [statement_of_head (hname.head?_ne (by decide) _), key_append hname hbefore]
    have hvalue : anyValue (skipSpaces (behind ++ (text ++ rest))) = some (v, rest) := by
      rw [skipSpaces_append hbehind, skipSpaces_writtenValue h, anyValue_append h hquote]
    simp [expect, hvalue]

end ImportLedger.Toml
