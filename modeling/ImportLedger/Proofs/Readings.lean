import ImportLedger.Statement.Shape

/-! What the readers of references and bindings read: the texts that their shapes describe,
cut at their quotes. -/

namespace ImportLedger

namespace Text

/-- A text is cut in one way only at its first character of a class. -/
theorem append_cons_inj_of_first {p : Char → Bool} {u u' v v' : List Char} {c c' : Char}
    (hu : ∀ x ∈ u, p x = false) (hu' : ∀ x ∈ u', p x = false) (hc : p c = true)
    (hc' : p c' = true) (h : u ++ c :: v = u' ++ c' :: v') : u = u' ∧ c = c' ∧ v = v' := by
  induction u generalizing u' with
  | nil =>
    cases u' with
    | nil => exact ⟨rfl, List.cons.inj h⟩
    | cons d u' =>
      have hd : c = d := (List.cons.inj h).1
      have hno : p d = false := hu' d List.mem_cons_self
      rw [← hd, hc] at hno
      cases hno
  | cons a u ih =>
    cases u' with
    | nil =>
      have ha : a = c' := (List.cons.inj h).1
      have hno : p a = false := hu a List.mem_cons_self
      rw [ha, hc'] at hno
      cases hno
    | cons d u' =>
      obtain ⟨rfl, ht⟩ := List.cons.inj h
      have hh := ih (fun x hx => hu x (List.mem_cons_of_mem _ hx))
        (fun x hx => hu' x (List.mem_cons_of_mem _ hx)) ht
      exact ⟨congrArg (a :: ·) hh.1, hh.2⟩

/-- A text with two characters of a class is cut in one way only at both of them. -/
theorem append_pair_inj {p : Char → Bool} {u v w u' v' w' : List Char} {c d c' d' : Char}
    (hu : ∀ x ∈ u, p x = false) (hv : ∀ x ∈ v, p x = false) (hw : ∀ x ∈ w, p x = false)
    (hc : p c = true) (hd : p d = true) (hc' : p c' = true) (hd' : p d' = true)
    (h : u ++ c :: (v ++ d :: w) = u' ++ c' :: (v' ++ d' :: w')) : u = u' ∧ v = v' ∧ w = w' := by
  have hnone {s : List Char} (hs : ∀ x ∈ s, p x = false) : s.countP p = 0 :=
    List.countP_eq_zero.mpr fun x hx => by simp [hs x hx]
  have hfree {s : List Char} (hs : s.countP p = 0) : ∀ x ∈ s, p x = false := fun x hx => by
    simpa using List.countP_eq_zero.mp hs x hx
  have hcount := congrArg (List.countP p) h
  simp only [List.countP_append, List.countP_cons, hnone hu, hnone hv, hnone hw, hc, hd, hc', hd',
    if_true] at hcount
  obtain ⟨rfl, -, hrest⟩ := append_cons_inj_of_first hu (hfree (by omega)) hc hc' h
  obtain ⟨rfl, -, rfl⟩ := append_cons_inj_of_first hv (hfree (by omega)) hd hd' hrest
  exact ⟨rfl, rfl, rfl⟩

theorem exists_first {p : Char → Bool} {s : List Char} (h : ∃ x ∈ s, p x = true) :
    ∃ u c v, (∀ x ∈ u, p x = false) ∧ p c = true ∧ s = u ++ c :: v := by
  obtain ⟨c, u, v, hu, hc, hs, -⟩ := List.exists_of_eraseP h.choose_spec.1 h.choose_spec.2
  exact ⟨u, c, v, fun x hx => by simpa using hu x hx, hc, hs⟩

theorem forall_mem_of_all {p : Char → Prop} [DecidablePred p] {s : List Char}
    (h : s.all (fun c => decide (p c)) = true) : ∀ c ∈ s, p c := by
  simpa using h

/-- What is left of a text without its blanks. -/
def ink (s : List Char) : List Char := s.filter (!isBlank ·)

theorem ink_append (s t : List Char) : ink (s ++ t) = ink s ++ ink t := List.filter_append _ _

theorem ink_of_blank {s : List Char} (h : ∀ c ∈ s, isBlank c = true) : ink s = [] :=
  List.filter_eq_nil_iff.mpr fun c hc => by simp [h c hc]

theorem ink_cons_ne_nil {c : Char} {s : List Char} (h : isBlank c = false) : ink (c :: s) ≠ [] := by
  rw [ink, List.filter_cons_of_pos (by simp [h])]
  exact List.cons_ne_nil _ _

end Text

namespace Pattern

variable {p q : Pattern} {accepts : Char → Bool} {s : List Char}

@[simp] theorem describes_literal {word : String} :
    (literal word).Describes s ↔ s = word.toList :=
  ⟨fun h => by cases h; rfl, fun h => h ▸ .literal word⟩

@[simp] theorem describes_one : (one accepts).Describes s ↔ ∃ c, accepts c = true ∧ s = [c] := by
  constructor
  · rintro ⟨⟩
    exact ⟨_, by assumption, rfl⟩
  · rintro ⟨c, hc, rfl⟩
    exact .one hc

@[simp] theorem describes_run :
    (run accepts).Describes s ↔ ∀ c ∈ s, accepts c = true :=
  ⟨fun h => by cases h; assumption, .run⟩

@[simp] theorem describes_append :
    (p ++ q).Describes s ↔ ∃ t u, p.Describes t ∧ q.Describes u ∧ s = t ++ u := by
  constructor
  · rintro ⟨⟩
    exact ⟨_, _, by assumption, by assumption, rfl⟩
  · rintro ⟨t, u, ht, hu, rfl⟩
    exact .seq ht hu

@[simp] theorem describes_either :
    (either p q).Describes s ↔ p.Describes s ∨ q.Describes s := by
  constructor
  · intro h
    cases h with
    | first h => exact .inl h
    | second h => exact .inr h
  · rintro (h | h)
    · exact .first h
    · exact .second h

@[simp] theorem describes_optional : (optional p).Describes s ↔ p.Describes s ∨ s = [] := by
  simp [optional]

@[simp] theorem describes_someOf :
    (someOf accepts).Describes s ↔ s ≠ [] ∧ ∀ c ∈ s, accepts c = true := by
  rw [someOf, describes_append]
  constructor
  · rintro ⟨t, u, ht, hu, rfl⟩
    obtain ⟨c, hc, rfl⟩ := describes_one.mp ht
    have hrun := describes_run.mp hu
    simpa [hc] using hrun
  · rintro ⟨hne, hall⟩
    obtain ⟨c, t, rfl⟩ := List.exists_cons_of_ne_nil hne
    have ht : ∀ d ∈ t, accepts d = true := fun d hd => hall d (List.mem_cons_of_mem _ hd)
    exact ⟨[c], t, .one (hall c List.mem_cons_self), .run ht, rfl⟩

/-- Whether a pattern describes texts of certain characters only. -/
def Within (f : Char → Bool) : Pattern → Prop
  | literal word => ∀ c ∈ word.toList, f c = true
  | one accepts | run accepts => ∀ c, accepts c = true → f c = true
  | seq first second | either first second => first.Within f ∧ second.Within f

theorem within_literal {f : Char → Bool} {word : String} (h : word.toList.all f = true) :
    (literal word).Within f :=
  List.all_eq_true.mp h

theorem Within.forall_mem {f : Char → Bool} (hp : p.Within f) (h : p.Describes s) :
    ∀ c ∈ s, f c = true := by
  induction h with
  | literal word => exact hp
  | one hc => simpa using hp _ hc
  | run hs => exact fun c hc => hp c (hs c hc)
  | seq _ _ ihs iht =>
    intro c hc
    rcases List.mem_append.mp hc with hc | hc
    · exact ihs hp.1 c hc
    · exact iht hp.2 c hc
  | first _ ih => exact ih hp.1
  | second _ ih => exact ih hp.2

end Pattern

open Pattern Text

theorem ReferenceShape.read_sound {shape : ReferenceShape} {s m left : List Char}
    (h : shape.read s = some (m, left)) :
    ∃ o c, shape.opening.Describes o ∧ shape.specifier.Describes m ∧
      shape.closing.Describes c ∧ s = o ++ (m ++ (c ++ left)) := by
  obtain ⟨after, hafter, hspec⟩ := List.exists_of_findSome?_eq_some h
  obtain ⟨closing, hclosing, hclose⟩ := List.exists_of_findSome?_eq_some hspec
  obtain ⟨rest, hrest, he⟩ := Option.map_eq_some_iff.mp hclose
  obtain ⟨o, ho, rfl⟩ := mem_rests.mp hafter
  obtain ⟨m', hm, rfl⟩ := mem_rests.mp hclosing
  obtain ⟨c, hc, rfl⟩ := mem_rests.mp (List.mem_of_mem_head? hrest)
  rw [consumed_append] at he
  cases he
  exact ⟨o, c, ho, hm, hc, rfl⟩

theorem ReferenceShape.exists_read {shape : ReferenceShape} {o m c left : List Char}
    (ho : shape.opening.Describes o) (hm : shape.specifier.Describes m)
    (hc : shape.closing.Describes c) :
    ∃ v, shape.read (o ++ (m ++ (c ++ left))) = some v := by
  apply Option.isSome_iff_exists.mp
  have hafter : m ++ (c ++ left) ∈ shape.opening.rests (o ++ (m ++ (c ++ left))) :=
    mem_rests.mpr ⟨o, ho, rfl⟩
  have hclosing : c ++ left ∈ shape.specifier.rests (m ++ (c ++ left)) :=
    mem_rests.mpr ⟨m, hm, rfl⟩
  have hrest : left ∈ shape.closing.rests (c ++ left) := mem_rests.mpr ⟨c, hc, rfl⟩
  refine List.findSome?_isSome_iff.mpr ⟨_, hafter, ?_⟩
  refine List.findSome?_isSome_iff.mpr ⟨_, hclosing, ?_⟩
  rw [Option.isSome_map]
  exact List.isSome_head?.mpr (List.ne_nil_of_mem hrest)

theorem BindingShape.read_sound {shape : BindingShape} {s left : List Char} {v : BindingReading}
    (h : shape.read s = some (v, left)) :
    ∃ lead link, shape.lead.Describes lead ∧ shape.binding.Describes v.binding ∧
      shape.link.Describes link ∧
      shape.reference.read (v.reference ++ left) = some (v.specifier, left) ∧
      s = lead ++ (v.binding ++ (link ++ (v.reference ++ left))) := by
  obtain ⟨bound, hbound, hlater⟩ := List.exists_of_findSome?_eq_some h
  obtain ⟨link, hlink, hlater'⟩ := List.exists_of_findSome?_eq_some hlater
  obtain ⟨reference, hreference, hlast⟩ := List.exists_of_findSome?_eq_some hlater'
  obtain ⟨⟨m, rest⟩, hread, he⟩ := Option.map_eq_some_iff.mp hlast
  obtain ⟨lead, hlead, rfl⟩ := mem_rests.mp hbound
  obtain ⟨binding, hbinding, rfl⟩ := mem_rests.mp hlink
  obtain ⟨join, hjoin, rfl⟩ := mem_rests.mp hreference
  obtain ⟨o, c, -, -, -, rfl⟩ := shape.reference.read_sound hread
  rw [show o ++ (m ++ (c ++ rest)) = (o ++ m ++ c) ++ rest by simp] at he hread ⊢
  simp only [consumed_append] at he
  cases he
  exact ⟨lead, join, hlead, hbinding, hjoin, hread, rfl⟩

theorem BindingShape.exists_read {shape : BindingShape} {lead binding link s : List Char}
    (hlead : shape.lead.Describes lead) (hbinding : shape.binding.Describes binding)
    (hlink : shape.link.Describes link) (hs : ∃ v, shape.reference.read s = some v) :
    ∃ v, shape.read (lead ++ (binding ++ (link ++ s))) = some v := by
  apply Option.isSome_iff_exists.mp
  have hbound : binding ++ (link ++ s) ∈ shape.lead.rests (lead ++ (binding ++ (link ++ s))) :=
    mem_rests.mpr ⟨lead, hlead, rfl⟩
  have hjoin : link ++ s ∈ shape.binding.rests (binding ++ (link ++ s)) :=
    mem_rests.mpr ⟨binding, hbinding, rfl⟩
  have hreference : s ∈ shape.link.rests (link ++ s) := mem_rests.mpr ⟨link, hlink, rfl⟩
  refine List.findSome?_isSome_iff.mpr ⟨_, hbound, ?_⟩
  refine List.findSome?_isSome_iff.mpr ⟨_, hjoin, ?_⟩
  refine List.findSome?_isSome_iff.mpr ⟨_, hreference, ?_⟩
  rw [Option.isSome_map]
  exact Option.isSome_iff_exists.mpr hs

namespace Shape

theorem not_isQuote_of_ne {c : Char} (hs : c ≠ '\'') (hd : c ≠ '"') (hb : c ≠ '`') :
    isQuote c = false := by
  simp [isQuote, isPlainQuote, hs, hd, hb]

theorem not_isQuote_of_isBlank {c : Char} (h : isBlank c = true) : isQuote c = false := by
  apply not_isQuote_of_ne <;> rintro rfl <;> exact absurd h (by decide)

theorem not_isBlank_of_isQuote {c : Char} (h : isQuote c = true) : isBlank c = false := by
  apply Bool.eq_false_iff.mpr
  intro hb
  rw [not_isQuote_of_isBlank hb] at h
  cases h

theorem not_isQuote_of_isTokenPart {c : Char} (h : isTokenPart c = true) : isQuote c = false := by
  apply not_isQuote_of_ne <;> rintro rfl <;> exact absurd h (by decide)

/-- A call up to its quoted argument. -/
def callHead (keyword : String) : Pattern :=
  literal keyword ++ blanks ++ literal "(" ++ blanks

/-- A word of which a call can be told: no blank, quote or closing bracket stands in it. -/
def IsKeyword (keyword : String) : Prop :=
  keyword.toList ≠ [] ∧
    ∀ c ∈ keyword.toList, isBlank c = false ∧ isQuote c = false ∧ c ≠ ')'

theorem isKeyword_require : IsKeyword "require" := ⟨by decide, forall_mem_of_all (by decide)⟩

theorem isKeyword_import : IsKeyword "import" := ⟨by decide, forall_mem_of_all (by decide)⟩

theorem describes_callHead {keyword : String} {s : List Char} :
    (callHead keyword).Describes s ↔
      ∃ b b', (∀ c ∈ b, isBlank c = true) ∧ (∀ c ∈ b', isBlank c = true) ∧
        s = keyword.toList ++ (b ++ '(' :: b') := by
  simp only [callHead, blanks, describes_append, describes_literal, describes_run]
  constructor
  · rintro ⟨_, b', ⟨_, _, ⟨_, b, rfl, hb, rfl⟩, rfl, rfl⟩, hb', rfl⟩
    exact ⟨b, b', hb, hb', by simp⟩
  · rintro ⟨b, b', hb, hb', rfl⟩
    exact ⟨_, b', ⟨_, _, ⟨_, b, rfl, hb, rfl⟩, rfl, rfl⟩, hb', by simp⟩

theorem not_isQuote_of_mem_callHead {keyword : String} (hk : IsKeyword keyword) {s : List Char}
    (h : (callHead keyword).Describes s) : ∀ c ∈ s, isQuote c = false := by
  have hblank : ∀ c, isBlank c = true → (!isQuote c) = true := fun c hc => by
    simp [not_isQuote_of_isBlank hc]
  have hword : ∀ c ∈ keyword.toList, (!isQuote c) = true := fun c hc => by
    simp [(hk.2 c hc).2.1]
  have hwithin : (callHead keyword).Within (!isQuote ·) :=
    ⟨⟨⟨hword, hblank⟩, within_literal (by decide)⟩, hblank⟩
  exact fun c hc => by simpa using hwithin.forall_mem h c hc

/-- Without its blanks a call's head is the keyword and a bracket. -/
theorem ink_callHead {keyword : String} (hk : IsKeyword keyword) {s : List Char}
    (h : (callHead keyword).Describes s) : ink s = keyword.toList ++ ['('] := by
  obtain ⟨b, b', hb, hb', rfl⟩ := describes_callHead.mp h
  have hword : ink keyword.toList = keyword.toList :=
    List.filter_eq_self.mpr fun c hc => by simp [(hk.2 c hc).1]
  have hbracket : ink ('(' :: b') = ['('] := by
    rw [show '(' :: b' = ['('] ++ b' from rfl, ink_append, ink_of_blank hb']
    decide
  rw [ink_append, ink_append, hword, ink_of_blank hb, hbracket]
  rfl

/-- A call is its head, its specifier between two quotes, and a bracket after some blanks. -/
theorem call_read_iff {keyword : String} (hk : IsKeyword keyword) {s m left : List Char} :
    (call keyword).read s = some (m, left) ↔
      ∃ head q q' b, (callHead keyword).Describes head ∧ isQuote q = true ∧ isQuote q' = true ∧
        m ≠ [] ∧ (∀ c ∈ m, isQuote c = false) ∧ (∀ c ∈ b, isBlank c = true) ∧
        s = head ++ q :: (m ++ q' :: (b ++ ')' :: left)) := by
  have hsound : ∀ {m left : List Char}, (call keyword).read s = some (m, left) →
      ∃ head q q' b, (callHead keyword).Describes head ∧ isQuote q = true ∧ isQuote q' = true ∧
        m ≠ [] ∧ (∀ c ∈ m, isQuote c = false) ∧ (∀ c ∈ b, isBlank c = true) ∧
        s = head ++ q :: (m ++ q' :: (b ++ ')' :: left)) := by
    intro m left h
    obtain ⟨o, c, ho, hm, hc, rfl⟩ := (call keyword).read_sound h
    obtain ⟨head, _, hhead, hone, rfl⟩ := describes_append.mp ho
    obtain ⟨q, hq, rfl⟩ := describes_one.mp hone
    obtain ⟨_, _, hclose, hend, rfl⟩ := describes_append.mp hc
    obtain ⟨_, b, hone', hb, rfl⟩ := describes_append.mp hclose
    obtain ⟨q', hq', rfl⟩ := describes_one.mp hone'
    rw [describes_literal.mp hend]
    obtain ⟨hne, hm⟩ := describes_someOf.mp hm
    exact ⟨head, q, q', b, hhead, hq, hq', hne, fun c hc => by simpa using hm c hc,
      describes_run.mp hb, by simp⟩
  constructor
  · exact hsound
  · rintro ⟨head, q, q', b, hhead, hq, hq', hne, hm, hb, hs⟩
    have hopen : (call keyword).opening.Describes (head ++ [q]) := .seq hhead (.one hq)
    have hspec : (call keyword).specifier.Describes m :=
      describes_someOf.mpr ⟨hne, fun c hc => by simp [hm c hc]⟩
    have hclose : (call keyword).closing.Describes ([q'] ++ b ++ [')']) :=
      .seq (.seq (.one hq') (.run hb)) (.literal ")")
    have htext : head ++ [q] ++ (m ++ ([q'] ++ b ++ [')'] ++ left)) = s := by simp [hs]
    obtain ⟨⟨n, after⟩, hread⟩ := htext ▸ ReferenceShape.exists_read hopen hspec hclose
    obtain ⟨head', r, r', b', hhead', hr, hr', -, hn, hb', hs'⟩ := hsound hread
    rw [hread]
    obtain ⟨-, -, h⟩ := append_cons_inj_of_first (not_isQuote_of_mem_callHead hk hhead)
      (not_isQuote_of_mem_callHead hk hhead') hq hr (hs.symm.trans hs')
    obtain ⟨rfl, -, h⟩ := append_cons_inj_of_first hm hn hq' hr' h
    obtain ⟨-, -, rfl⟩ := append_cons_inj_of_first (p := (!isBlank ·))
      (fun c hc => by simp [hb c hc]) (fun c hc => by simp [hb' c hc]) (by decide) (by decide) h
    rfl

theorem quoted_read_sound {before : Pattern} {s m left : List Char}
    (h : (quoted before).read s = some (m, left)) :
    ∃ t q q', before.Describes t ∧ isPlainQuote q = true ∧ isPlainQuote q' = true ∧ m ≠ [] ∧
      (∀ c ∈ m, isPlainQuote c = false) ∧ s = t ++ q :: (m ++ q' :: left) := by
  obtain ⟨o, c, ho, hm, hc, rfl⟩ := ReferenceShape.read_sound h
  obtain ⟨t, _, ht, hone, rfl⟩ := describes_append.mp ho
  obtain ⟨q, hq, rfl⟩ := describes_one.mp hone
  obtain ⟨q', hq', rfl⟩ := describes_one.mp hc
  obtain ⟨hne, hm⟩ := describes_someOf.mp hm
  exact ⟨t, q, q', ht, hq, hq', hne, fun c hc => by simpa using hm c hc, by simp⟩

theorem exists_quoted_read {before : Pattern} {t m left : List Char} {q q' : Char}
    (ht : before.Describes t) (hq : isPlainQuote q = true) (hq' : isPlainQuote q' = true)
    (hne : m ≠ []) (hm : ∀ c ∈ m, isPlainQuote c = false) :
    ∃ v, (quoted before).read (t ++ q :: (m ++ q' :: left)) = some v := by
  have hopen : (quoted before).opening.Describes (t ++ [q]) := .seq ht (.one hq)
  have hspec : (quoted before).specifier.Describes m :=
    describes_someOf.mpr ⟨hne, fun c hc => by simp [hm c hc]⟩
  have hclose : (quoted before).closing.Describes [q'] := .one hq'
  have hs : t ++ q :: (m ++ q' :: left) = (t ++ [q]) ++ (m ++ ([q'] ++ left)) := by simp
  rw [hs]
  exact ReferenceShape.exists_read hopen hspec hclose

end Shape

end ImportLedger
