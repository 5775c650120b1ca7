import Mathlib.Data.List.DropRight
import ImportLedger.Proofs.BindingReadings
import ImportLedger.Proofs.LineTokens
import ImportLedger.Proofs.Search

/-! Identifier tokens against the words of their text. A token runs from the first letter of a word
to the end of the word. What may stand before it is another class of characters than that of words,
so the tokens are the words that begin with a letter just where the two classes agree. -/

namespace ImportLedger

open Text Occurrence Grammar

namespace Identifier

/-- A name that ends where its word ends, behind the text `before`. -/
def EndsWord (text before : List Char) (t : Identifier) : Prop :=
  ∃ after, text = before ++ (t.text.toList ++ after) ∧ t.start = byteLength before ∧
    Name t.text.toList ∧ Past isTokenPart after

/-- A name that runs from the first letter of a word to the end of the word: before it the word has
no letter. -/
structure FromFirstLetter (text before : List Char) (t : Identifier) : Prop where
  endsWord : EndsWord text before t
  no_letter : ∀ c ∈ before.rtakeWhile isTokenPart, isTokenStart c = false

/-- A name that is a whole word: the longest run of word characters around it. -/
def WholeWord (text : List Char) (t : Identifier) : Prop :=
  ∃ before, EndsWord text before t ∧ ∀ c ∈ before.getLast?, isTokenPart c = false

section Scan

variable {inside : Bool} {before : Option Char} {offset : Nat} {s : List Char} {t : Identifier}

/-- Whether a name goes on past a character, or begins with it. -/
def goesOn (inside : Bool) (c : Char) : Bool := if inside then isTokenPart c else isTokenStart c

/-- A text that follows no name and ends in none has no letter in the word that it ends in. -/
theorem foldl_goesOn_eq_false_iff (s : List Char) :
    s.foldl goesOn false = false ↔ ∀ c ∈ s.rtakeWhile isTokenPart, isTokenStart c = false := by
  induction s using List.reverseRecOn with
  | nil => simp
  | append_singleton s c ih =>
    rw [List.foldl_append, List.foldl_cons, List.foldl_nil, goesOn]
    by_cases hpart : isTokenPart c = true
    · rw [List.rtakeWhile_concat_pos _ _ _ hpart, List.forall_mem_append, ← ih]
      cases s.foldl goesOn false <;> simp [hpart]
    · have hstart : isTokenStart c = false :=
        Bool.eq_false_iff.mpr fun h => hpart (isTokenPart_of_isTokenStart h)
      rw [List.rtakeWhile_concat_neg _ _ _ hpart]
      simp [hpart, hstart]

theorem mem_scan : t ∈ scan inside before offset s ↔
    ∃ p c r, s = p ++ c :: r ∧ p.foldl goesOn inside = false ∧ isTokenStart c = true ∧
      nameMayFollow (lastOr before p) = true ∧
      t = ⟨offset + byteLength p, String.ofList (c :: r.takeWhile isTokenPart)⟩ := by
  induction s generalizing inside before offset with
  | nil => simp [scan]
  | cons d s ih =>
    have hlater : t ∈ scan (goesOn inside d) (some d) (offset + d.utf8Size) s ↔
        ∃ p c r, s = p ++ c :: r ∧ (d :: p).foldl goesOn inside = false ∧
          isTokenStart c = true ∧ nameMayFollow (lastOr before (d :: p)) = true ∧
          t = ⟨offset + byteLength (d :: p), String.ofList (c :: r.takeWhile isTokenPart)⟩ := by
      rw [ih]
      simp only [List.foldl_cons, lastOr, byteLength_cons, Nat.add_assoc]
    have hstep : t ∈ scan inside before offset (d :: s) ↔
        (inside = false ∧ isTokenStart d = true ∧ nameMayFollow before = true ∧
          t = ⟨offset, String.ofList (d :: s.takeWhile isTokenPart)⟩) ∨
        t ∈ scan (goesOn inside d) (some d) (offset + d.utf8Size) s := by
      cases inside with
      | true => simp [scan, goesOn]
      | false =>
        by_cases hbegins : (isTokenStart d && nameMayFollow before) = true
        · simp [scan, goesOn, Bool.and_eq_true_iff.mp hbegins]
        · have hno : ¬ (isTokenStart d = true ∧ nameMayFollow before = true) := by
            simpa using hbegins
          simp only [scan, goesOn, hbegins, Bool.false_eq_true, if_false]
          tauto
    rw [hstep, hlater]
    constructor
    · rintro (⟨rfl, hc, hmay, ht⟩ | ⟨p, c, r, rfl, hp, hc, hmay, ht⟩)
      · exact ⟨[], d, s, rfl, rfl, hc, hmay, ht⟩
      · exact ⟨d :: p, c, r, rfl, hp, hc, hmay, ht⟩
    · rintro ⟨p, c, r, hs, hp, hc, hmay, ht⟩
      cases p with
      | nil =>
        obtain ⟨rfl, rfl⟩ := List.cons.inj hs
        exact .inl ⟨hp, hc, hmay, ht⟩
      | cons e p =>
        obtain ⟨rfl, rfl⟩ := List.cons.inj hs
        exact .inr ⟨p, c, r, rfl, hp, hc, hmay, ht⟩

theorem scan_pairwise (inside : Bool) (before : Option Char) (offset : Nat) (s : List Char) :
    (scan inside before offset s).Pairwise (·.start < ·.start) := by
  induction s generalizing inside before offset with
  | nil => exact .nil
  | cons c s ih =>
    have hlater := ih (isTokenStart c) (some c) (offset + c.utf8Size)
    have hpos := c.utf8Size_pos
    cases inside with
    | true => exact ih (isTokenPart c) (some c) (offset + c.utf8Size)
    | false =>
      simp only [scan]
      split
      · refine List.pairwise_cons.mpr ⟨fun t ht => ?_, hlater⟩
        have hstart := (start_lt_of_mem_scan ht).1
        dsimp only
        omega
      · exact hlater

end Scan

theorem nameMayFollow_iff {before : Option Char} :
    nameMayFollow before = true ↔ ∀ c ∈ before, isNamePart c = false := by
  cases before <;> simp [nameMayFollow]

/-- Behind one text only stands a token with its byte offset. -/
theorem EndsWord.before_inj {text before before' : List Char} {t : Identifier}
    (h : EndsWord text before t) (h' : EndsWord text before' t) : before = before' := by
  obtain ⟨after, he, hstart, -, -⟩ := h
  obtain ⟨after', he', hstart', -, -⟩ := h'
  exact (append_inj_of_byteLength (he.symm.trans he') (hstart.symm.trans hstart')).1

theorem FromFirstLetter.of_not_isTokenPart {text before : List Char} {t : Identifier}
    (h : EndsWord text before t) (hb : ∀ c ∈ before.getLast?, isTokenPart c = false) :
    FromFirstLetter text before t := by
  refine ⟨h, ?_⟩
  have hnil : before.rtakeWhile isTokenPart = [] := by
    rcases List.eq_nil_or_concat before with rfl | ⟨s, c, rfl⟩
    · rfl
    · have hc : isTokenPart c = false := hb c (by simp)
      rw [List.concat_eq_append, List.rtakeWhile_concat_neg _ _ _ (by simp [hc])]
  simp [hnil]

theorem wholeWord_iff {text : List Char} {t : Identifier} :
    WholeWord text t ↔
      ∃ before, FromFirstLetter text before t ∧ ∀ c ∈ before.getLast?, isTokenPart c = false := by
  constructor
  · rintro ⟨before, h, hb⟩
    exact ⟨before, .of_not_isTokenPart h hb, hb⟩
  · rintro ⟨before, h, hb⟩
    exact ⟨before, h.endsWord, hb⟩

end Identifier

open Identifier

theorem mem_identifiers {text : String} {t : Identifier} :
    t ∈ identifiers text ↔ ∃ before, FromFirstLetter text.toList before t ∧
      ∀ c ∈ before.getLast?, isNamePart c = false := by
  rw [identifiers, mem_scan]
  simp only [lastOr_none, nameMayFollow_iff, foldl_goesOn_eq_false_iff, Nat.zero_add]
  constructor
  · rintro ⟨p, c, r, hs, hp, hc, hmay, rfl⟩
    have hname : Name (c :: r.takeWhile isTokenPart) :=
      .intro hc fun d hd => List.mem_takeWhile_imp hd
    have hpast : Past isTokenPart (r.dropWhile isTokenPart) := by
      intro d hd
      have hnot := List.head?_dropWhile_not isTokenPart r
      rwa [Option.mem_def.mp hd] at hnot
    refine ⟨p, ⟨⟨r.dropWhile isTokenPart, ?_, rfl, ?_, hpast⟩, hp⟩, hmay⟩
    · simpa [String.toList_ofList, List.takeWhile_append_dropWhile] using hs
    · simpa using hname
  · rintro ⟨before, ⟨⟨after, hs, hstart, hname, hpast⟩, hp⟩, hmay⟩
    obtain ⟨start, name⟩ := t
    dsimp only at hs hstart hname
    generalize hchars : name.toList = chars at hs hname
    obtain @⟨c, s, hc, hparts⟩ := hname
    have htext : name = String.ofList (c :: s) := by rw [← hchars, String.ofList_toList]
    exact ⟨before, c, s ++ after, hs, hp, hc, hmay,
      by rw [takeWhile_append_of_past hparts hpast, hstart, htext]⟩

section Places

variable {text : String} {before : List Char} {t : Identifier}

theorem Identifier.FromFirstLetter.mem_identifiers_iff (h : FromFirstLetter text.toList before t) :
    t ∈ identifiers text ↔ ∀ c ∈ before.getLast?, isNamePart c = false := by
  rw [mem_identifiers]
  refine ⟨?_, fun hb => ⟨before, h, hb⟩⟩
  rintro ⟨before', h', hb⟩
  rwa [h.endsWord.before_inj h'.endsWord]

theorem Identifier.FromFirstLetter.wholeWord_iff (h : FromFirstLetter text.toList before t) :
    WholeWord text.toList t ↔ ∀ c ∈ before.getLast?, isTokenPart c = false := by
  refine ⟨?_, fun hb => ⟨before, h.endsWord, hb⟩⟩
  rintro ⟨before', h', hb⟩
  rwa [h.endsWord.before_inj h']

end Places

/-- The tokens of a text stand in order, each once. They run from the first letter of a word to its
end and are those before which no name could go on. That these are the whole words that begin with
a letter holds just of the texts in which, right before a word's first letter, the characters that
a name could go on with are those that a word could. -/
theorem identifiers_of_words (text : String) :
    (identifiers text).Pairwise (·.start < ·.start) ∧
    (∀ t, t ∈ identifiers text ↔ ∃ before, FromFirstLetter text.toList before t ∧
      ∀ c ∈ before.getLast?, isNamePart c = false) ∧
    ((∀ t, t ∈ identifiers text ↔ WholeWord text.toList t) ↔
      ∀ t before, FromFirstLetter text.toList before t →
        ∀ c ∈ before.getLast?, isNamePart c = isTokenPart c) := by
  refine ⟨scan_pairwise false none 0 _, fun t => mem_identifiers, ?_⟩
  constructor
  · intro hall t before h c hc
    have hiff := (h.mem_identifiers_iff.symm.trans (hall t)).trans h.wholeWord_iff
    simp only [Option.mem_def.mp hc, Option.mem_some_iff, forall_eq'] at hiff
    cases hname : isNamePart c <;> simp_all
  · intro h t
    rw [mem_identifiers, wholeWord_iff]
    refine exists_congr fun before => and_congr_right fun hfirst => ?_
    refine forall_congr' fun c => forall_congr' fun hc => ?_
    rw [h t before hfirst c hc]

/-- A mark goes on with a word and not with a name; an exponent, the other way round. So one token
is split off a word, and a whole word is passed over. -/
theorem identifiers_split_word :
    let text := "0\u0301roi \u00b2tape"
    identifiers text = [⟨3, "roi"⟩] ∧
      ¬ WholeWord text.toList ⟨3, "roi"⟩ ∧ WholeWord text.toList ⟨9, "tape"⟩ := by
  intro text
  have hroi : FromFirstLetter text.toList "0\u0301".toList ⟨3, "roi"⟩ :=
    ⟨⟨" \u00b2tape".toList, by decide, by decide,
      .intro (by decide) (forall_mem_of_all (by decide)), past_cons.mpr (by decide)⟩,
      forall_mem_of_all (by decide)⟩
  have htape : EndsWord text.toList "0\u0301roi \u00b2".toList ⟨9, "tape"⟩ :=
    ⟨[], by decide, by decide, .intro (by decide) (forall_mem_of_all (by decide)), past_nil⟩
  refine ⟨by decide +kernel, fun h => ?_, "0\u0301roi \u00b2".toList, htape, ?_⟩
  · exact absurd (hroi.wholeWord_iff.mp h '\u0301' (by decide)) (by decide)
  · rintro c ⟨⟩
    decide

end ImportLedger
