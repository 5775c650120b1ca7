import ImportLedger.Report.Text
import Mathlib.Data.List.Basic

/-! Colours are decoration. Without its codes a coloured report is the plain one, and every code
that begins a colour is followed by the one that ends it. -/

namespace ImportLedger

/-- The codes of coloured text. -/
inductive ColorCode
  | begins (color : Color)
  | ends
  deriving DecidableEq, Repr

namespace ColorCode

def text : ColorCode → String
  | begins color => color.code
  | ends => resetCode

def all : List ColorCode := [begins .red, begins .green, begins .yellow, begins .magenta, ends]

/-- The code that a text begins with, and what is behind it. -/
def ahead? (s : List Char) : Option (ColorCode × List Char) :=
  all.findSome? fun code => (code.text.toList.isPrefixOf? s).map (code, ·)

/-- The character that every code begins with. -/
def escape : Char := '\x1b'

theorem exists_text (code : ColorCode) : ∃ s, code.text.toList = escape :: s := by
  cases code with
  | ends => exact ⟨_, rfl⟩
  | begins color => cases color <;> exact ⟨_, rfl⟩

theorem ahead?_text (code : ColorCode) (rest : List Char) :
    ahead? (code.text.toList ++ rest) = some (code, rest) := by
  cases code with
  | ends => rfl
  | begins color => cases color <;> rfl

theorem eq_of_ahead? {s rest : List Char} {code : ColorCode} (h : ahead? s = some (code, rest)) :
    s = code.text.toList ++ rest := by
  obtain ⟨code', -, h⟩ := List.exists_of_findSome?_eq_some h
  obtain ⟨rest', hread, he⟩ := Option.map_eq_some_iff.mp h
  obtain ⟨rfl, rfl⟩ := Prod.mk.inj he
  exact (List.isPrefixOf?_eq_some_iff_append_eq.mp hread).symm

theorem ahead?_of_ne {c : Char} (h : c ≠ escape) (s : List Char) : ahead? (c :: s) = none := by
  cases ha : ahead? (c :: s) with
  | none => rfl
  | some result =>
    obtain ⟨code, rest⟩ := result
    obtain ⟨t, ht⟩ := code.exists_text
    have he := eq_of_ahead? ha
    rw [ht] at he
    exact absurd (List.cons.inj he).1 h

theorem length_lt_of_ahead? {s rest : List Char} {code : ColorCode}
    (h : ahead? s = some (code, rest)) : rest.length < s.length := by
  obtain ⟨t, ht⟩ := code.exists_text
  rw [eq_of_ahead? h, ht]
  simp only [List.length_append, List.length_cons]
  omega

end ColorCode

open ColorCode

/-- A text from left to right as codes and the characters that belong to none. -/
def codesAndChars (s : List Char) : List (ColorCode ⊕ Char) :=
  match s with
  | [] => []
  | c :: rest =>
    match _h : ahead? (c :: rest) with
    | some (code, after) => .inl code :: codesAndChars after
    | none => .inr c :: codesAndChars rest
termination_by s.length
decreasing_by
  · exact length_lt_of_ahead? _h
  · simp

/-- The codes of a text. -/
def codesIn (s : String) : List ColorCode := (codesAndChars s.toList).filterMap Sum.getLeft?

/-- A text with every code deleted. -/
def withoutCodes (s : String) : String :=
  String.ofList ((codesAndChars s.toList).filterMap Sum.getRight?)

theorem codesAndChars_code (code : ColorCode) (rest : List Char) :
    codesAndChars (code.text.toList ++ rest) = .inl code :: codesAndChars rest := by
  have ha := ahead?_text code rest
  obtain ⟨t, ht⟩ := code.exists_text
  rw [ht, List.cons_append] at ha ⊢
  rw [codesAndChars]
  split
  · simp_all
  · simp_all

theorem codesAndChars_char {c : Char} (h : c ≠ escape) (rest : List Char) :
    codesAndChars (c :: rest) = .inr c :: codesAndChars rest := by
  have ha := ahead?_of_ne h rest
  rw [codesAndChars]
  split
  · simp_all
  · rfl

theorem codesAndChars_append {s : List Char} (h : escape ∉ s) (rest : List Char) :
    codesAndChars (s ++ rest) = s.map .inr ++ codesAndChars rest := by
  induction s with
  | nil => rfl
  | cons c s ih =>
    simp only [List.mem_cons, not_or] at h
    rw [List.cons_append, codesAndChars_char (Ne.symm h.1), ih h.2]
    rfl

namespace Span

/-- What a span becomes in a coloured text. -/
def codesAndChars (span : Span) : List (ColorCode ⊕ Char) :=
  match span.color with
  | none => span.text.toList.map .inr
  | some color => .inl (.begins color) :: span.text.toList.map .inr ++ [.inl .ends]

theorem codesAndChars_render {span : Span} (h : escape ∉ span.text.toList) (rest : List Char) :
    ImportLedger.codesAndChars ((span.render true).toList ++ rest) =
      span.codesAndChars ++ ImportLedger.codesAndChars rest := by
  obtain ⟨color, text⟩ := span
  cases color with
  | none => exact codesAndChars_append h rest
  | some color =>
    have hbegin := codesAndChars_code (.begins color) (text.toList ++ (resetCode.toList ++ rest))
    have hend := codesAndChars_code .ends rest
    simp only [ColorCode.text] at hbegin hend
    simp only [render, String.toList_append, List.append_assoc]
    rw [hbegin, codesAndChars_append h, hend]
    simp [codesAndChars]

theorem getLeft?_codesAndChars (span : Span) :
    span.codesAndChars.filterMap Sum.getLeft? =
      span.color.toList.flatMap fun color => [.begins color, .ends] := by
  obtain ⟨color, text⟩ := span
  cases color <;> simp [codesAndChars, List.filterMap_map, Function.comp_def]

theorem getRight?_codesAndChars (span : Span) :
    span.codesAndChars.filterMap Sum.getRight? = (span.render false).toList := by
  obtain ⟨color, text⟩ := span
  cases color <;>
    simp [codesAndChars, render, List.filterMap_cons, List.filterMap_map, Function.comp_def]

end Span

theorem codesAndChars_render {document : List Span}
    (h : ∀ span ∈ document, escape ∉ span.text.toList) :
    codesAndChars (render true document).toList = document.flatMap Span.codesAndChars := by
  induction document with
  | nil => exact codesAndChars.eq_1
  | cons span document ih =>
    have htext : (render true (span :: document)).toList =
        (span.render true).toList ++ (render true document).toList := by simp [render]
    rw [htext, Span.codesAndChars_render (h span (by simp)), ih fun s hs => h s (by simp [hs])]
    rfl

/-- The colours of a document, in order. -/
def colors (document : List Span) : List Color := document.flatMap (·.color.toList)

theorem codesIn_render {document : List Span}
    (h : ∀ span ∈ document, escape ∉ span.text.toList) :
    codesIn (render true document) =
      (colors document).flatMap fun color => [.begins color, .ends] := by
  rw [codesIn, codesAndChars_render h, List.filterMap_flatMap, colors, List.flatMap_assoc]
  simp only [Span.getLeft?_codesAndChars]

theorem withoutCodes_render {document : List Span}
    (h : ∀ span ∈ document, escape ∉ span.text.toList) :
    withoutCodes (render true document) = render false document := by
  rw [withoutCodes, codesAndChars_render h, List.filterMap_flatMap]
  simp only [Span.getRight?_codesAndChars]
  apply String.toList_injective
  simp [render, List.flatMap_map]

end ImportLedger
