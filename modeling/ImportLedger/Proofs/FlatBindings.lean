import ImportLedger.Proofs.CountedNames
import ImportLedger.Proofs.WrittenBindings

/-! Names that flat bindings introduce. What stands ahead of a name in its item, and what stands
behind it, is cut off, whatever keys and default values are written there. -/

namespace ImportLedger

open Text Grammar

/-- A character of a word in a binding: a binding is neither trimmed nor cut at it. -/
def isLocalPart (c : Char) : Bool := !isBindingFrame c && !([',', '=', ':', '.'].contains c)

/-- A word in the place of a name. Whether it is the name of a variable is left open. -/
structure LocalWord where
  chars : List Char
  chars_ne_nil : chars ≠ []
  isLocalPart_of_mem : ∀ c ∈ chars, isLocalPart c = true

/-- The forms of an item, without its default value. -/
inductive ItemTarget
  | name (name : LocalWord)
  | rest (gap : Gap) (name : LocalWord)
  /-- Words such as `type` stand ahead of the name. -/
  | marked (first : LocalWord × Space) (more : List (LocalWord × Space)) (name : LocalWord)
  | renamed (member : { s : List Char // ',' ∉ s ∧ '=' ∉ s ∧ ':' ∉ s }) (before : Gap)
      (after : Space) (name : LocalWord)
  | keyed (key : { s : List Char // ',' ∉ s ∧ '=' ∉ s }) (before after : Gap) (name : LocalWord)

structure FlatItem where
  target : ItemTarget
  /-- The blanks ahead of the sign and all that stands behind it. -/
  default : Option (Gap × { s : List Char // ',' ∉ s })

inductive FlatBinding
  | name (name : LocalWord)
  | braced (items : Listing FlatItem)
  | bracketed (items : Listing FlatItem)
  | all (before : Gap) (after : Space) (name : LocalWord)
  | defaultBraced (default : LocalWord) (before after : Gap) (items : Listing FlatItem)
  | defaultAll (default : LocalWord) (before after gap : Gap) (space : Space) (name : LocalWord)

section Texts

namespace ItemTarget

def word : ItemTarget → LocalWord
  | name v | rest _ v | marked _ _ v | renamed _ _ _ v | keyed _ _ _ v => v

/-- What stands ahead of the name. -/
def lead : ItemTarget → List Char
  | name _ => []
  | rest b _ => "...".toList ++ b.val
  | marked w ws _ => (w :: ws).flatMap fun w => w.1.chars ++ w.2.val
  | renamed m b b' _ => m.val ++ (b.val ++ ("as".toList ++ b'.val))
  | keyed k b b' _ => k.val ++ (b.val ++ ':' :: b'.val)

end ItemTarget

namespace FlatItem

def defaultText : Option (Gap × { s : List Char // ',' ∉ s }) → List Char
  | none => []
  | some (b, e) => b.val ++ '=' :: e.val

def text (i : FlatItem) : List Char :=
  i.target.lead ++ (i.target.word.chars ++ defaultText i.default)

end FlatItem

def Listing.items {α : Type} : Listing α → List α
  | blank _ => []
  | last _ a _ => [a]
  | more _ a _ rest => a :: rest.items

namespace FlatBinding

def bracedText (items : Listing FlatItem) : List Char := '{' :: (items.text FlatItem.text ++ ['}'])

def allText (before : Gap) (after : Space) (name : LocalWord) : List Char :=
  '*' :: (before.val ++ ("as".toList ++ (after.val ++ name.chars)))

def text : FlatBinding → List Char
  | name v => v.chars
  | braced items => bracedText items
  | bracketed items => '[' :: (items.text FlatItem.text ++ [']'])
  | all b b' v => allText b b' v
  | defaultBraced d b b' items => d.chars ++ (b.val ++ ',' :: (b'.val ++ bracedText items))
  | defaultAll d b b' b'' space v =>
    d.chars ++ (b.val ++ ',' :: (b'.val ++ allText b'' space v))

/-- One word for each item. -/
def words : FlatBinding → List LocalWord
  | name v | all _ _ v => [v]
  | braced items | bracketed items => items.items.map (·.target.word)
  | defaultBraced d _ _ items => d :: items.items.map (·.target.word)
  | defaultAll d _ _ _ _ v => [d, v]

end FlatBinding

end Texts

namespace Text

variable {p : Char → Bool} {s t : List Char}

theorem dropWhile_append_of_stop (ht : t.dropWhile p = t) :
    (s ++ t).dropWhile p = s.dropWhile p ++ t := by
  rw [List.dropWhile_append]
  split
  · rename_i hs
    rw [ht, List.isEmpty_iff.mp hs, List.nil_append]
  · rfl

/-- Trimming does not reach over a word. -/
theorem trim_around {v : List Char} (hne : v ≠ []) (hv : ∀ c ∈ v, p c = false) (s t : List Char) :
    trim p (s ++ (v ++ t)) = s.dropWhile p ++ (v ++ (t.reverse.dropWhile p).reverse) := by
  have hstop {w : List Char} (hw : w ≠ []) (hall : ∀ c ∈ w, p c = false) (u : List Char) :
      (w ++ u).dropWhile p = w ++ u := by
    cases w with
    | nil => exact absurd rfl hw
    | cons c w => simp [hall c List.mem_cons_self]
  have hback : ∀ c ∈ v.reverse, p c = false := fun c hc => hv c (List.mem_reverse.mp hc)
  rw [trim, dropWhile_append_of_stop (hstop hne hv t)]
  simp only [List.reverse_append, List.append_assoc]
  rw [dropWhile_append_of_stop (hstop (by simpa using hne) hback _)]
  simp

end Text

section Items

variable {c : Char} {s a z d : List Char}

def Framed (s : List Char) : Prop := ∀ c ∈ s, isBindingFrame c = true

theorem framed_nil : Framed [] := fun _ hc => absurd hc List.not_mem_nil

theorem Grammar.Blanks.framed (h : Blanks s) : Framed s := fun c hc => by
  simp [isBindingFrame, h c hc]

theorem Framed.append {t : List Char} (hs : Framed s) (ht : Framed t) : Framed (s ++ t) :=
  List.forall_mem_append.mpr ⟨hs, ht⟩

theorem bne_of_notMem (h : c ∉ s) : ∀ d ∈ s, (d != c) = true := fun _ hd =>
  bne_iff_ne.mpr fun e => h (e ▸ hd)

theorem Framed.notMem (h : Framed s) (hc : isBindingFrame c = false) : c ∉ s := fun hm => by
  rw [h c hm] at hc
  cases hc

theorem LocalWord.isBindingFrame_of_mem (v : LocalWord) :
    ∀ c ∈ v.chars, isBindingFrame c = false := fun c hc => by
  have h := v.isLocalPart_of_mem c hc
  simp only [isLocalPart, Bool.and_eq_true, Bool.not_eq_true'] at h
  exact h.1

theorem LocalWord.notMem (v : LocalWord) (hc : isLocalPart c = false) : c ∉ v.chars := fun hm => by
  rw [v.isLocalPart_of_mem c hm] at hc
  cases hc

theorem LocalWord.not_isBlank_of_mem (v : LocalWord) : ∀ c ∈ v.chars, isBlank c = false :=
  fun c hc => by
    have h := v.isBindingFrame_of_mem c hc
    simp only [isBindingFrame, Bool.or_eq_false_iff] at h
    exact h.1.1.1.1

theorem LocalWord.dropEllipses_chars (v : LocalWord) : dropEllipses v.chars = v.chars := by
  unfold dropEllipses
  split
  · rename_i h
    exact absurd (by simp [h]) (v.notMem (c := '.') (by decide))
  · rfl

/-- What may stand in an item ahead of its name: brackets and blanks, perhaps with an ellipsis; other
words; or a key with its colon. -/
inductive Ahead : List Char → Prop
  | framed {s : List Char} (h : Framed s) : Ahead s
  | ellipsis {s : List Char} (h : Framed s) : Ahead (s ++ "...".toList)
  | words {s b : List Char} (hs : '=' ∉ s) (hb : Blanks b) (hne : b ≠ []) : Ahead (s ++ b)
  | key {s b : List Char} (hs : '=' ∉ s) (hb : Blanks b) : Ahead (s ++ ':' :: b)

/-- What is left of the text ahead of a name: that behind its last colon, without a frame. -/
def leftAhead (a : List Char) : List Char :=
  (((a.dropWhile isBindingFrame).reverse.takeWhile (· != ':')).reverse).dropWhile isBindingFrame

theorem leftAhead_suffix (a : List Char) : leftAhead a <:+ a := by
  have htake : ((a.dropWhile isBindingFrame).reverse.takeWhile (· != ':')).reverse <:+
      a.dropWhile isBindingFrame := by
    rw [← List.reverse_prefix, List.reverse_reverse]
    exact List.takeWhile_prefix _
  exact (List.dropWhile_suffix _).trans (htake.trans (List.dropWhile_suffix _))

theorem dropWhile_of_framed (h : Framed s) : s.dropWhile isBindingFrame = [] := by
  rw [List.dropWhile_eq_nil_iff]
  exact h

theorem Ahead.left (h : Ahead a) : leftAhead a = [] ∨ leftAhead a = "...".toList ∨
    ∃ s c, leftAhead a = s ++ [c] ∧ isBlank c = true := by
  cases h with
  | framed h =>
    rw [leftAhead, dropWhile_of_framed h]
    exact .inl rfl
  | @ellipsis s h =>
    have hdrop : (s ++ "...".toList).dropWhile isBindingFrame = "...".toList := by
      rw [List.dropWhile_append_of_pos h]
      decide
    rw [leftAhead, hdrop]
    exact .inr (.inl (by decide))
  | @words s b hs hb hne =>
    obtain ⟨front, hfront⟩ := leftAhead_suffix (s ++ b)
    rcases List.eq_nil_or_concat' (leftAhead (s ++ b)) with hnil | ⟨t, c, ht⟩
    · exact .inl hnil
    · refine .inr (.inr ⟨t, c, ht, ?_⟩)
      have hlast := congrArg List.getLast? hfront
      rw [ht, ← List.append_assoc, List.getLast?_concat, List.getLast?_append_of_ne_nil _ hne] at hlast
      exact hb c (List.mem_of_getLast? hlast.symm)
  | @key s b hs hb =>
    have hdrop : (s ++ ':' :: b).dropWhile isBindingFrame =
        s.dropWhile isBindingFrame ++ ':' :: b := dropWhile_append_of_stop rfl
    have hbehind : ':' ∉ b.reverse := fun hc =>
      hb.framed.notMem (by decide) (List.mem_reverse.mp hc)
    have hcolon (t : List Char) : (b.reverse ++ ':' :: t).takeWhile (· != ':') = b.reverse := by
      rw [List.takeWhile_append_of_pos (bne_of_notMem hbehind)]
      simp
    have hleft : leftAhead (s ++ ':' :: b) = b.dropWhile isBindingFrame := by
      simp only [leftAhead, hdrop, List.reverse_append, List.reverse_cons, List.append_assoc,
        List.singleton_append, hcolon, List.reverse_reverse]
    rw [hleft]
    exact .inl (dropWhile_of_framed hb.framed)

theorem Ahead.equals_notMem (h : Ahead a) : '=' ∉ a := by
  cases h with
  | framed h => exact h.notMem (by decide)
  | ellipsis h => exact List.not_mem_append (h.notMem (by decide)) (by decide)
  | words hs hb => exact List.not_mem_append hs (hb.framed.notMem (by decide))
  | key hs hb =>
    simp only [List.mem_append, List.mem_cons, not_or]
    exact ⟨hs, by decide, hb.framed.notMem (by decide)⟩

theorem Ahead.framed_append (hs : Framed s) (ha : Ahead a) : Ahead (s ++ a) := by
  have hequals : '=' ∉ s := hs.notMem (by decide)
  cases ha with
  | framed h => exact .framed (hs.append h)
  | ellipsis h =>
    rw [← List.append_assoc]
    exact .ellipsis (hs.append h)
  | words ht hb hne =>
    rw [← List.append_assoc]
    exact .words (by simp [hequals, ht]) hb hne
  | key ht hb =>
    rw [← List.append_assoc]
    exact .key (by simp [hequals, ht]) hb

theorem getLast?_words (h : s = [] ∨ s = "...".toList ∨ ∃ t c, s = t ++ [c] ∧ isBlank c = true)
    (v : LocalWord) : (words (s ++ v.chars)).getLast?.map dropEllipses = some v.chars := by
  have hword : words v.chars = [v.chars] := words_eq_singleton v.chars_ne_nil v.not_isBlank_of_mem
  rcases h with rfl | rfl | ⟨t, c, rfl, hc⟩
  · rw [List.nil_append, hword, List.getLast?_singleton, Option.map_some, v.dropEllipses_chars]
  · have hdots : ∀ c ∈ "...".toList ++ v.chars, isBlank c = false :=
      List.forall_mem_append.mpr ⟨forall_mem_of_all (by decide), v.not_isBlank_of_mem⟩
    rw [words_eq_singleton (by simp) hdots, List.getLast?_singleton, Option.map_some]
    exact congrArg some v.dropEllipses_chars
  · have hlast : words (t ++ [c] ++ v.chars) = words t ++ [v.chars] := by
      rw [← hword, words, words, words, List.append_assoc, List.singleton_append,
        List.splitOnP_append_cons t v.chars hc, List.filter_append]
    rw [hlast, List.getLast?_concat, Option.map_some, v.dropEllipses_chars]

/-- Behind a name only a frame is left once the default value is cut off. -/
theorem framed_behind (hz : Framed z) (hd : d = [] ∨ ∃ e, d = '=' :: e) :
    Framed (((z ++ d).reverse.dropWhile isBindingFrame).reverse.takeWhile (· != '=')) := by
  rcases hd with rfl | ⟨e, rfl⟩
  · have hnil : (z ++ []).reverse.dropWhile isBindingFrame = [] :=
      dropWhile_of_framed fun c hc => hz c (by simpa using hc)
    rw [hnil]
    exact fun _ hc => absurd hc List.not_mem_nil
  · have hstop : (z ++ '=' :: e).reverse.dropWhile isBindingFrame =
        e.reverse.dropWhile isBindingFrame ++ '=' :: z.reverse := by
      simp only [List.reverse_append, List.reverse_cons, List.append_assoc, List.singleton_append]
      exact dropWhile_append_of_stop rfl
    rw [hstop, List.reverse_append, List.reverse_cons, List.reverse_reverse, List.append_assoc,
      List.singleton_append,
      List.takeWhile_append_of_pos (bne_of_notMem (hz.notMem (by decide)))]
    simpa using hz

/-- What an item introduces, whatever stands ahead of its name and whatever default it has. -/
theorem itemName?_of_ahead (ha : Ahead a) (v : LocalWord) (hz : Framed z)
    (hd : d = [] ∨ ∃ e, d = '=' :: e) :
    itemName? (a ++ (v.chars ++ (z ++ d))) = (some v.chars).filter isName := by
  obtain ⟨z', hz'⟩ : ∃ z', ((z ++ d).reverse.dropWhile isBindingFrame).reverse.takeWhile
      (· != '=') = z' := ⟨_, rfl⟩
  have hframed : Framed z' := hz' ▸ framed_behind hz hd
  have hname := v.isBindingFrame_of_mem
  have htarget : (trim isBindingFrame (a ++ (v.chars ++ (z ++ d)))).takeWhile (· != '=') =
      a.dropWhile isBindingFrame ++ (v.chars ++ z') := by
    have hfront : '=' ∉ a.dropWhile isBindingFrame := fun hm =>
      ha.equals_notMem ((List.dropWhile_suffix _).subset hm)
    rw [trim_around v.chars_ne_nil hname, List.takeWhile_append_of_pos (bne_of_notMem hfront),
      List.takeWhile_append_of_pos (bne_of_notMem (v.notMem (by decide))), hz']
  have hlocal : ((a.dropWhile isBindingFrame ++ (v.chars ++ z')).reverse.takeWhile
      (· != ':')).reverse =
      ((a.dropWhile isBindingFrame).reverse.takeWhile (· != ':')).reverse ++ (v.chars ++ z') := by
    have hcolon : ':' ∉ (v.chars ++ z').reverse := fun hm =>
      List.not_mem_append (v.notMem (by decide)) (hframed.notMem (by decide)) (List.mem_reverse.mp hm)
    rw [List.reverse_append, List.takeWhile_append_of_pos (bne_of_notMem hcolon),
      List.reverse_append, List.reverse_reverse]
  have hend : (z'.reverse.dropWhile isBindingFrame).reverse = [] := by
    rw [dropWhile_of_framed fun c hc => hframed c (List.mem_reverse.mp hc), List.reverse_nil]
  rw [itemName?, htarget, hlocal, trim_around v.chars_ne_nil hname, hend, List.append_nil]
  exact congrArg (Option.filter isName) (getLast?_words ha.left v)

theorem itemName?_of_framed (h : Framed s) : itemName? s = none := by
  have hempty : trim isBindingFrame s = [] := by
    rw [trim, dropWhile_of_framed h]
    rfl
  rw [itemName?, hempty]
  rfl

end Items

section Bindings

variable {c : Char} {a z : List Char}

theorem Gap.framed (b : Gap) : Framed b.val := Blanks.framed b.property

theorem Space.framed (b : Space) : Framed b.val := Blanks.framed b.property.1

namespace ItemTarget

/-- The lead of an item keeps free of a mark that its texts are free of. -/
theorem notMem_marked (hword : isLocalPart c = false) (hframe : isBindingFrame c = false)
    (ws : List (LocalWord × Space)) : c ∉ ws.flatMap fun w => w.1.chars ++ w.2.val := by
  intro hc
  obtain ⟨w, -, hw⟩ := List.mem_flatMap.mp hc
  rcases List.mem_append.mp hw with hw | hw
  · exact w.1.notMem hword hw
  · exact (Space.framed w.2).notMem hframe hw

theorem ahead_lead (t : ItemTarget) (ha : Framed a) : Ahead (a ++ t.lead) := by
  cases t with
  | name v =>
    rw [lead, List.append_nil]
    exact .framed ha
  | rest b v =>
    by_cases hb : b.val = []
    · rw [lead, hb, List.append_nil]
      exact .ellipsis ha
    · rw [lead, ← List.append_assoc]
      exact .words (List.not_mem_append (ha.notMem (by decide)) (by decide)) b.property hb
  | marked w ws v =>
    -- The last of the words ends in blanks.
    obtain ⟨front, last, hlast⟩ : ∃ front last, w :: ws = front ++ [last] :=
      (List.eq_nil_or_concat' (w :: ws)).resolve_left (by simp)
    refine .framed_append ha ?_
    rw [lead, hlast, List.flatMap_append, List.flatMap_singleton, ← List.append_assoc]
    exact .words (List.not_mem_append (notMem_marked (by decide) (by decide) front)
      (last.1.notMem (by decide))) last.2.property.1 last.2.property.2
  | renamed m b b' v =>
    refine .framed_append ha ?_
    rw [lead, ← List.append_assoc, ← List.append_assoc]
    refine .words ?_ b'.property.1 b'.property.2
    simp only [List.mem_append, not_or]
    exact ⟨⟨m.property.2.1, b.framed.notMem (by decide)⟩, by decide⟩
  | keyed k b b' v =>
    refine .framed_append ha ?_
    rw [lead, ← List.append_assoc]
    exact .key (List.not_mem_append k.property.2 (b.framed.notMem (by decide))) b'.property

theorem comma_notMem_lead (t : ItemTarget) : ',' ∉ t.lead := by
  have hgap (b : Gap) : ',' ∉ b.val := b.framed.notMem (by decide)
  have hspace (b : Space) : ',' ∉ b.val := b.framed.notMem (by decide)
  cases t with
  | name v => exact List.not_mem_nil
  | rest b v => exact List.not_mem_append (by decide) (hgap b)
  | marked w ws v => exact notMem_marked (by decide) (by decide) (w :: ws)
  | renamed m b b' v =>
    simp only [lead, List.mem_append, not_or]
    exact ⟨m.property.1, hgap b, by decide, hspace b'⟩
  | keyed k b b' v =>
    simp only [lead, List.mem_append, List.mem_cons, not_or]
    exact ⟨k.property.1, hgap b, by decide, hgap b'⟩

end ItemTarget

namespace FlatItem

theorem comma_notMem_text (i : FlatItem) : ',' ∉ i.text := by
  have hdefault : ',' ∉ defaultText i.default := by
    cases i.default with
    | none => exact List.not_mem_nil
    | some d =>
      simp only [defaultText, List.mem_append, List.mem_cons, not_or]
      exact ⟨d.1.framed.notMem (by decide), by decide, d.2.property⟩
  simp only [text, List.mem_append, not_or]
  exact ⟨i.target.comma_notMem_lead, i.target.word.notMem (by decide), hdefault⟩

theorem itemName?_text (i : FlatItem) (ha : Framed a) (hz : Framed z) :
    itemName? (a ++ (i.text ++ z)) = (some i.target.word.chars).filter isName := by
  have hlead := i.target.ahead_lead ha
  rw [text, List.append_assoc, List.append_assoc, ← List.append_assoc]
  cases hd : i.default with
  | none =>
    have hh := itemName?_of_ahead hlead i.target.word hz (.inl rfl)
    rwa [List.append_nil] at hh
  | some d =>
    have htext : defaultText (some d) ++ z = d.1.val ++ '=' :: (d.2.val ++ z) := by
      simp [defaultText]
    rw [htext]
    exact itemName?_of_ahead hlead i.target.word d.1.framed (.inr ⟨_, rfl⟩)

end FlatItem

theorem filterMap_cons_of_filter {α : Type} {f : List Char → Option α} {p : α → Bool} {s : List Char}
    {v : α} (h : f s = (some v).filter p) (rest : List (List Char)) :
    (s :: rest).filterMap f = [v].filter p ++ rest.filterMap f := by
  rw [List.filterMap_cons, h, Option.filter_some]
  by_cases hv : p v = true <;> simp [hv]

/-- The items of a list, with a frame ahead of the first and one behind the last. -/
theorem Listing.filterMap_itemName? (l : Listing FlatItem) (ha : Framed a) (hz : Framed z) :
    ((a ++ (l.text FlatItem.text ++ z)).splitOn ',').filterMap itemName? =
      (l.items.map (·.target.word.chars)).filter isName := by
  have hcomma {s : List Char} (hs : Framed s) : ',' ∉ s := hs.notMem (by decide)
  induction l generalizing a with
  | blank b =>
    have hall : Framed (a ++ (b.val ++ z)) := ha.append (b.framed.append hz)
    rw [text, List.splitOn_eq_singleton (hcomma hall), List.filterMap_cons,
      itemName?_of_framed hall]
    rfl
  | last b i b' =>
    have hfront := ha.append b.framed
    have hback := b'.framed.append hz
    have hsplit : a ++ (b.val ++ (i.text ++ b'.val) ++ z) =
        (a ++ b.val) ++ (i.text ++ (b'.val ++ z)) := by simp
    have hnone : ',' ∉ (a ++ b.val) ++ (i.text ++ (b'.val ++ z)) :=
      List.not_mem_append (hcomma hfront) (List.not_mem_append i.comma_notMem_text (hcomma hback))
    rw [text, hsplit, List.splitOn_eq_singleton hnone,
      filterMap_cons_of_filter (i.itemName?_text hfront hback)]
    exact List.append_nil _
  | more b i b' rest ih =>
    have hfront := ha.append b.framed
    have hsplit : a ++ (b.val ++ (i.text ++ (b'.val ++ ',' :: rest.text FlatItem.text)) ++ z) =
        (a ++ b.val) ++ (i.text ++ b'.val) ++ ',' :: ([] ++ (rest.text FlatItem.text ++ z)) := by
      simp
    have hnone : ',' ∉ (a ++ b.val) ++ (i.text ++ b'.val) :=
      List.not_mem_append (hcomma hfront)
        (List.not_mem_append i.comma_notMem_text (hcomma b'.framed))
    rw [text, hsplit, List.splitOn_append_cons_self_of_not_mem hnone,
      filterMap_cons_of_filter (i.itemName?_text hfront b'.framed),
      ih framed_nil]
    exact (List.filter_append [i.target.word.chars] _).symm

theorem itemName?_word (v : LocalWord) (hz : Framed z) :
    itemName? (v.chars ++ z) = (some v.chars).filter isName := by
  have hh := itemName?_of_ahead (.framed framed_nil) v hz (.inl rfl)
  rwa [List.nil_append, List.append_nil] at hh

theorem itemName?_allText (ha : Framed a) (b : Gap) (b' : Space) (v : LocalWord) :
    itemName? (a ++ FlatBinding.allText b b' v) = (some v.chars).filter isName := by
  have hahead : Ahead (a ++ (('*' :: (b.val ++ "as".toList)) ++ b'.val)) := by
    refine .framed_append ha (.words ?_ b'.property.1 b'.property.2)
    simp only [List.mem_cons, List.mem_append, not_or]
    exact ⟨by decide, b.framed.notMem (by decide), by decide⟩
  have hh := itemName?_of_ahead hahead v framed_nil (.inl rfl)
  have htext : a ++ FlatBinding.allText b b' v =
      a ++ (('*' :: (b.val ++ "as".toList)) ++ b'.val) ++ (v.chars ++ ([] ++ [])) := by
    simp [FlatBinding.allText]
  rw [htext, hh]

theorem comma_notMem_allText (b : Gap) (b' : Space) (v : LocalWord) :
    ',' ∉ FlatBinding.allText b b' v := by
  simp only [FlatBinding.allText, List.mem_cons, List.mem_append, not_or]
  exact ⟨by decide, b.framed.notMem (by decide), by decide, b'.framed.notMem (by decide),
    v.notMem (by decide)⟩

theorem filterMap_default (d : LocalWord) (b : Gap) (rest : List Char) :
    ((d.chars ++ (b.val ++ ',' :: rest)).splitOn ',').filterMap itemName? =
      [d.chars].filter isName ++ (rest.splitOn ',').filterMap itemName? := by
  have hnone : ',' ∉ d.chars ++ b.val :=
    List.not_mem_append (d.notMem (by decide)) (b.framed.notMem (by decide))
  rw [← List.append_assoc, List.splitOn_append_cons_self_of_not_mem hnone,
    filterMap_cons_of_filter (itemName?_word d b.framed)]

end Bindings

/-- Reading back what a flat binding introduces. There is one name for each item, in order, unless
what stands in its place is no name; keys, marks and default values introduce nothing. -/
theorem boundNames_of_items (b : FlatBinding) :
    boundNames (String.ofList b.text) =
      ((b.words.map (·.chars)).filter isName).map String.ofList := by
  rw [boundNames, String.toList_ofList]
  refine congrArg (List.map String.ofList) ?_
  have hopen : Framed ['{'] := List.forall_mem_singleton.mpr (by decide)
  have hclose : Framed ['}'] := List.forall_mem_singleton.mpr (by decide)
  cases b with
  | name v =>
    have hh := itemName?_word v framed_nil
    rw [List.append_nil] at hh
    rw [FlatBinding.text, List.splitOn_eq_singleton (v.notMem (by decide)),
      filterMap_cons_of_filter hh]
    exact List.append_nil _
  | braced items =>
    have hh := items.filterMap_itemName? hopen hclose
    rw [FlatBinding.words, List.map_map]
    exact hh
  | bracketed items =>
    have hh := items.filterMap_itemName? (a := ['[']) (z := [']'])
      (List.forall_mem_singleton.mpr (by decide)) (List.forall_mem_singleton.mpr (by decide))
    rw [FlatBinding.words, List.map_map]
    exact hh
  | all b b' v =>
    have hh := itemName?_allText framed_nil b b' v
    rw [List.nil_append] at hh
    rw [FlatBinding.text, List.splitOn_eq_singleton (comma_notMem_allText b b' v),
      filterMap_cons_of_filter hh]
    exact List.append_nil _
  | defaultBraced d b b' items =>
    have hh := items.filterMap_itemName? (b'.framed.append hopen) hclose
    have htext : b'.val ++ FlatBinding.bracedText items =
        b'.val ++ ['{'] ++ (items.text FlatItem.text ++ ['}']) := by
      simp [FlatBinding.bracedText]
    rw [FlatBinding.text, filterMap_default, htext, hh, FlatBinding.words, List.map_cons,
      List.map_map]
    exact (List.filter_append [d.chars] _).symm
  | defaultAll d b b' b'' space v =>
    have hnone : ',' ∉ b'.val ++ FlatBinding.allText b'' space v :=
      List.not_mem_append (b'.framed.notMem (by decide)) (comma_notMem_allText b'' space v)
    rw [FlatBinding.text, filterMap_default, List.splitOn_eq_singleton hnone,
      filterMap_cons_of_filter (itemName?_allText b'.framed b'' space v), List.filterMap_nil,
      List.append_nil]
    exact (List.filter_append [d.chars] [v.chars]).symm

example :
    let word (s : String) (hne : s.toList ≠ []) (h : s.toList.all isLocalPart = true) : LocalWord :=
      ⟨s.toList, hne, List.all_eq_true.mp h⟩
    let none' : Gap := ⟨[], fun _ h => absurd h List.not_mem_nil⟩
    let space : Space := ⟨[' '], List.forall_mem_singleton.mpr rfl, by decide⟩
    let typed : FlatItem :=
      ⟨.marked (word "type" (by decide) (by decide), space) [] (word "A" (by decide) (by decide)),
        some (none', ⟨"\x7bk: 1\x7d".toList, by decide⟩)⟩
    let keyed : FlatItem :=
      ⟨.keyed ⟨"'x:y'".toList, by decide⟩ none' none' (word "b" (by decide) (by decide)), none⟩
    let numbered : FlatItem := ⟨.rest none' (word "0c" (by decide) (by decide)), none⟩
    let b : FlatBinding := .braced
      (.more none' typed none' (.more none' keyed none' (.more none' numbered none' (.blank none'))))
    String.ofList b.text = "\x7btype A=\x7bk: 1\x7d,'x:y':b,...0c,\x7d" ∧
      boundNames (String.ofList b.text) = ["A", "b"] := by
  decide +kernel

end ImportLedger
