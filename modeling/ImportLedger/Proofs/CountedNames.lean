import ImportLedger.Proofs.UsageCounts
import ImportLedger.Proofs.WholeWords

/-! Names that a statement binds and names that the ledger counts. What a binding of one name
introduces is that name, if all its characters are characters of names; a token may hold others,
and then nothing is introduced and no occurrence is counted. -/

namespace ImportLedger

open Text Grammar

namespace Text

variable {p : Char → Bool} {s : List Char}

theorem trim_eq_self (h : ∀ c ∈ s, p c = false) : trim p s = s := by
  have hkept {t : List Char} (ht : ∀ c ∈ t, p c = false) : t.dropWhile p = t :=
    List.dropWhile_eq_self_iff.mpr fun hpos => by simp [ht _ (List.getElem_mem hpos)]
  rw [trim, hkept h, hkept fun c hc => h c (List.mem_reverse.mp hc), List.reverse_reverse]

theorem words_eq_singleton (hne : s ≠ []) (h : ∀ c ∈ s, isBlank c = false) : words s = [s] := by
  rw [words, List.splitOnP_eq_singleton h]
  simpa using hne

theorem isNamePart_of_isTokenStart {c : Char} (h : isTokenStart c = true) :
    isNameStart c = true ∧ isNamePart c = true := by
  simp only [isTokenStart, Bool.or_eq_true] at h
  rcases h with (letter | underscore) | dollar
  · simp [isNameStart, isNamePart, isNameLetter, isAlphabetic_of_isLetter letter]
  · simp [isNameStart, isNamePart, underscore]
  · simp [isNameStart, isNamePart, dollar]

end Text

section Names

variable {s : List Char}

theorem isName_of_name (h : Name s) : isName s = s.all isNamePart := by
  obtain ⟨hc, -⟩ := h
  obtain ⟨hstart, hpart⟩ := isNamePart_of_isTokenStart hc
  simp [isName, hstart, hpart]

/-- Nothing is cut off a name, and it is one item. -/
theorem itemName?_of_name (h : Name s) : itemName? s = (some s).filter isName := by
  have htoken := h.isTokenPart_of_mem
  have hblank : ∀ c ∈ s, isBlank c = false := fun c hc => not_isBlank_of_isTokenPart (htoken c hc)
  have hne {c d : Char} (hc : c ∈ s) (hd : isTokenPart d = false) : c ≠ d := fun e => by
    rw [e] at hc
    rw [htoken d hc] at hd
    cases hd
  have hframe : ∀ c ∈ s, isBindingFrame c = false := fun c hc => by
    simp [isBindingFrame, hblank c hc, hne hc (show isTokenPart '{' = false by decide),
      hne hc (show isTokenPart '}' = false by decide),
      hne hc (show isTokenPart '[' = false by decide),
      hne hc (show isTokenPart ']' = false by decide)]
  have hequals : s.takeWhile (· != '=') = s :=
    List.takeWhile_eq_self_iff.mpr fun c hc => by
      simp [hne hc (show isTokenPart '=' = false by decide)]
  have hcolon : s.reverse.takeWhile (· != ':') = s.reverse :=
    List.takeWhile_eq_self_iff.mpr fun c hc => by
      simp [hne (List.mem_reverse.mp hc) (show isTokenPart ':' = false by decide)]
  have hdots : dropEllipses s = s := by
    obtain ⟨c, t, rfl, -⟩ := h.exists_head
    have hc : c ≠ '.' := hne List.mem_cons_self (by decide)
    unfold dropEllipses
    split
    · rename_i he
      exact absurd (List.cons.inj he).1 hc
    · rfl
  have hnil : s ≠ [] := by
    obtain ⟨c, t, rfl, -⟩ := h.exists_head
    exact List.cons_ne_nil c t
  simp only [itemName?, trim_eq_self hframe, hequals, hcolon, List.reverse_reverse,
    words_eq_singleton hnil hblank, List.getLast?_singleton, Option.map_some, hdots]

theorem boundNames_of_name {s : String} (h : Name s.toList) :
    boundNames s = if s.toList.all isNamePart then [s] else [] := by
  have hcomma : ',' ∉ s.toList := fun hc => absurd (h.isTokenPart_of_mem ',' hc) (by decide)
  rw [boundNames, List.splitOn_eq_singleton hcomma, List.filterMap_cons, itemName?_of_name h,
    Option.filter_some, isName_of_name h]
  by_cases hall : s.toList.all isNamePart = true
  · rw [if_pos hall, if_pos hall]
    exact congrArg (fun name => [name]) String.ofList_toList
  · rw [if_neg hall, if_neg hall]
    rfl

theorem name_of_mem_identifiers {text : String} {t : Identifier} (h : t ∈ identifiers text) :
    Name t.text.toList := by
  obtain ⟨before, ⟨⟨after, -, -, hname, -⟩, -⟩, -⟩ := mem_identifiers.mp h
  exact hname

end Names

namespace Declaration

/-- The tokens of a line that are the bound text of a declaration, outside its statement. -/
def mentionsOn (d : Declaration) (line : Line) : List Identifier :=
  (identifiers line.text).filter fun i =>
    !(line.number == d.line && d.covers i.start) && i.text == d.binding

theorem referencesOn_of_name {d : Declaration} (h : Name d.binding.toList) :
    d.referencesOn = if d.binding.toList.all isNamePart then d.mentionsOn else fun _ => [] := by
  funext line
  rw [referencesOn, boundNames_of_name h]
  by_cases hall : d.binding.toList.all isNamePart = true
  · rw [if_pos hall, if_pos hall]
    refine List.filter_congr fun i _ => ?_
    rw [List.contains_cons, List.contains_nil, Bool.or_false]
  · rw [if_neg hall, if_neg hall]
    exact List.filter_eq_nil_iff.mpr fun i _ => by simp

end Declaration

/-- A token, and likewise the bound text of a statement that binds one name, introduces itself if
its characters are all characters of names, and else nothing. In the ledger such a declaration has,
beside itself, all the tokens outside its statement that are its bound text, or none of them. -/
theorem boundNames_of_single_names (text : String) :
    (∀ t ∈ identifiers text,
      boundNames t.text = if t.text.toList.all isNamePart then [t.text] else []) ∧
    (∀ b ∈ bindingStatements text, Name b.binding.toList →
      boundNames b.binding = if b.binding.toList.all isNamePart then [b.binding] else []) ∧
    ∀ (lines : List Line) (label : String) (d : Declaration), Name d.binding.toList →
      usageRecords lines label [d] =
        [{ name := d.name, declaration := d.literal, file := label, line := d.line,
           occurrences := 1 + if d.binding.toList.all isNamePart then
             (lines.flatMap d.mentionsOn).length else 0 }] := by
  refine ⟨fun t ht => boundNames_of_name (name_of_mem_identifiers ht),
    fun b _ hb => boundNames_of_name hb, fun lines label d hd => ?_⟩
  rw [usageRecords, List.map_singleton, d.references_eq_length,
    Declaration.referencesOn_of_name hd]
  by_cases hall : d.binding.toList.all isNamePart = true
  · rw [if_pos hall, if_pos hall]
  · rw [if_neg hall, if_neg hall]
    simp

/-- A name of letters alone is bound and counted; a mark in a token keeps it from both. -/
theorem boundNames_of_single_names_roi :
    let text := "const roi = require('roi'); roi.e\u0301()"
    let d : Declaration := ⟨"roi", "roi", "require('roi')", .require, "a.js", 1, 0, 26⟩
    (⟨28, "roi"⟩ ∈ identifiers text ∧ boundNames "roi" = ["roi"]) ∧
      (⟨32, "e\u0301"⟩ ∈ identifiers text ∧ boundNames "e\u0301" = []) ∧
      ((⟨.require, "roi", "roi", "require('roi')", 0, 26⟩ : BindingStatement) ∈
        bindingStatements text ∧ Name "roi".toList ∧ boundNames "roi" = ["roi"]) ∧
      d ∈ findDeclarations [⟨text, 1⟩] "a.js" [⟨"roi", "1.0.0", .production⟩] ∧
      usageRecords [⟨text, 1⟩] "a.js" [d] = [⟨"roi", "roi-require('roi')", "a.js", 1, 2⟩] := by
  intro text d
  have hname : Name "roi".toList := .intro (by decide) (forall_mem_of_all (by decide))
  have hroi : (⟨28, "roi"⟩ : Identifier) ∈ identifiers text := by decide +kernel
  have hmark : (⟨32, "e\u0301"⟩ : Identifier) ∈ identifiers text := by decide +kernel
  have hbinding : (⟨.require, "roi", "roi", "require('roi')", 0, 26⟩ : BindingStatement) ∈
      bindingStatements text := by decide +kernel
  have hd : d ∈ findDeclarations [⟨text, 1⟩] "a.js" [⟨"roi", "1.0.0", .production⟩] := by
    decide +kernel
  obtain ⟨htokens, hbindings, hledger⟩ := boundNames_of_single_names text
  refine ⟨⟨hroi, ?_⟩, ⟨hmark, ?_⟩, ⟨hbinding, hname, ?_⟩, hd, ?_⟩
  · rw [htokens _ hroi, if_pos (by decide)]
  · rw [htokens _ hmark, if_neg (by decide)]
  · rw [hbindings _ hbinding hname, if_pos (by decide)]
  · rw [hledger _ _ d hname]
    decide +kernel

/-- A name with a mark is bound and used again, but neither introduced nor counted. -/
theorem unbound_name_with_mark :
    let text := "const e\u0301 = require('roi'); e\u0301()"
    let d : Declaration := ⟨"roi", "e\u0301", "require('roi')", .require, "a.js", 1, 0, 26⟩
    identifiers text =
        [⟨0, "const"⟩, ⟨6, "e\u0301"⟩, ⟨12, "require"⟩, ⟨21, "roi"⟩, ⟨28, "e\u0301"⟩] ∧
      bindingStatements text = [⟨.require, "e\u0301", "roi", "require('roi')", 0, 26⟩] ∧
      boundNames "e\u0301" = [] ∧
      findDeclarations [⟨text, 1⟩] "a.js" [⟨"roi", "1.0.0", .production⟩] = [d] ∧
      usageRecords [⟨text, 1⟩] "a.js" [d] = [⟨"roi", "e\u0301-require('roi')", "a.js", 1, 1⟩] := by
  decide +kernel

end ImportLedger
