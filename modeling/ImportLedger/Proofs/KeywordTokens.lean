import ImportLedger.Proofs.Records
import ImportLedger.Proofs.ReferenceGrammar
import ImportLedger.Proofs.WholeWords

/-! The keywords of statements as tokens. A statement begins where a word may begin; its keyword is
a token there unless a name could go on with it, as after a dollar sign, which no word has. -/

namespace ImportLedger

open Text Occurrence Grammar Identifier

/-- A keyword at a byte offset of a text, where a word begins, behind the text `before`. -/
structure KeywordAt (text before : List Char) (word : String) (offset : Nat) : Prop where
  endsWord : EndsWord text before ⟨offset, word⟩
  wordMayFollow : wordMayFollow before.getLast? = true

/-- One of some keywords at a byte offset of a text, which is a token of the text if and only if a
name may begin there. -/
def KeywordStands (text : String) (words : List String) (offset : Nat) : Prop :=
  ∃ word ∈ words, ∃ before, KeywordAt text.toList before word offset ∧
    (⟨offset, word⟩ ∈ identifiers text ↔ nameMayFollow before.getLast? = true)

theorem KeywordAt.mem_identifiers_iff {text : String} {before : List Char} {word : String}
    {offset : Nat} (h : KeywordAt text.toList before word offset) :
    ⟨offset, word⟩ ∈ identifiers text ↔ nameMayFollow before.getLast? = true := by
  rw [mem_identifiers, nameMayFollow_iff]
  constructor
  · rintro ⟨before', hfirst, hname⟩
    rwa [h.endsWord.before_inj hfirst.endsWord]
  · intro hname
    refine ⟨before, .of_not_isTokenPart h.endsWord fun c hc => ?_, hname⟩
    -- A dollar sign belongs to tokens and to names, so it is not what stands before.
    have hdollar : c ≠ '$' := by
      rintro rfl
      exact absurd (hname '$' hc) (by decide)
    simp [isTokenPart, wordMayFollow_iff.mp h.wordMayFollow c hc, hdollar]

section Searches

variable {words : List String} {s m u whole : List Char}

/-- A text whose first token, at its very beginning, is one of some keywords. -/
def BeginsWithKeyword (words : List String) (s : List Char) : Prop :=
  ∃ word ∈ words, ∃ after, Name word.toList ∧ s = word.toList ++ after ∧ Past isTokenPart after

theorem name_of_all (hc : s.head?.any isTokenStart = true) (hs : s.all isTokenPart = true) :
    Name s := by
  cases s with
  | nil => cases hc
  | cons c s => exact .intro hc fun d hd => List.all_eq_true.mp hs d (List.mem_cons_of_mem _ hd)

theorem name_require : Name "require".toList := name_of_all (by decide) (by decide)

theorem name_import : Name "import".toList := name_of_all (by decide) (by decide)

theorem name_keyword {kind : BindingKind} {word : String} (hw : word ∈ keywords kind) :
    Name word.toList := by
  have hall : ∀ w ∈ "import" :: declarators,
      w.toList.head?.any isTokenStart = true ∧ w.toList.all isTokenPart = true := by decide
  obtain ⟨hc, hs⟩ := hall word (keywords_subset kind hw)
  exact name_of_all hc hs

/-- What a search finds begins with a keyword, if all that is read does. -/
theorem keywordStands_of_mem_findAll {α : Type} {read : Reader α} {text : String} {o : Occurrence α}
    (ho : o ∈ findAll read text.toList)
    (hread : ∀ s v left, read s = some (v, left) → BeginsWithKeyword words s) :
    KeywordStands text words o.start := by
  obtain ⟨p, c, r, left, ht, hmay, hr, hstart, -⟩ := exists_of_mem_findAll ho
  obtain ⟨word, hw, after, hname, hs, hpast⟩ := hread _ _ _ hr
  have hends : EndsWord text.toList p ⟨o.start, word⟩ :=
    ⟨after, by rw [ht, hs], hstart, hname, hpast⟩
  rw [lastOr_none] at hmay
  have hat : KeywordAt text.toList p word o.start := ⟨hends, hmay⟩
  exact ⟨word, hw, p, hat, hat.mem_identifiers_iff⟩

theorem beginsWithKeyword_of_call {keyword : String} (hname : Name keyword.toList)
    (hc : Call keyword m whole) : BeginsWithKeyword [keyword] (whole ++ u) := by
  obtain ⟨hb, -, -, -⟩ := hc
  refine ⟨keyword, List.mem_cons_self, _, hname, List.append_assoc _ _ _, ?_⟩
  rw [List.append_assoc]
  exact hb.past_tokenPart (past_cons.mpr (by decide))

theorem beginsWithKeyword_of_derives {kind : BindingKind} {binding reference : List Char}
    (hd : Derives kind binding m reference whole) :
    BeginsWithKeyword (keywords kind) (whole ++ u) := by
  obtain ⟨word, hword, b, tail, body, hb, hne, -, rfl, -⟩ := hd.exists_body
  exact ⟨word, hword, b ++ (body ++ u), name_keyword hword, by simp,
    hb.past_tokenPart_of_ne_nil hne⟩

theorem beginsWithKeyword_of_refers {kind : ReferenceKind} (h : Refers kind m whole) :
    BeginsWithKeyword [kind.keyword] (whole ++ u) := by
  cases h with
  | require hc => exact beginsWithKeyword_of_call name_require hc
  | dynamicImport hc => exact beginsWithKeyword_of_call name_import hc
  | importFrom hd => exact beginsWithKeyword_of_derives hd
  | @sideEffect b m s hb hs =>
    obtain ⟨hq, -⟩ := hs
    refine ⟨"import", List.mem_cons_self, _, name_import, List.append_assoc _ _ _, ?_⟩
    rw [List.append_assoc]
    exact hb.past_tokenPart_quote hq

theorem keywordStands_of_reader (kind : ReferenceKind) {text : String}
    {o : Occurrence (List Char)} (ho : o ∈ findAll kind.reader text.toList) :
    KeywordStands text [kind.keyword] o.start := by
  refine keywordStands_of_mem_findAll ho fun s m left h => ?_
  obtain ⟨whole, href, rfl⟩ := reader_iff.mp h
  exact beginsWithKeyword_of_refers href

end Searches

section Statements

variable {text : String}

theorem keywordStands_of_mem_requireCalls {c : RequireCall} (hc : c ∈ requireCalls text) :
    KeywordStands text ["require"] c.start := by
  obtain ⟨o, ho, rfl⟩ := List.mem_map.mp hc
  exact keywordStands_of_reader .require ho

theorem keywordStands_of_mem_moduleReferences {r : ModuleReference}
    (hr : r ∈ moduleReferences text) : KeywordStands text ["require", "import"] r.start := by
  have hkeyword : ∀ kind : ReferenceKind, kind.keyword ∈ ["require", "import"] := by
    rintro (_ | _ | _ | _) <;> decide
  obtain ⟨kind, hk⟩ := ReferenceKind.mem_moduleReferences.mp hr
  obtain ⟨o, ho, rfl⟩ := List.mem_map.mp hk
  obtain ⟨word, hw, hstands⟩ := keywordStands_of_reader kind ho
  exact ⟨word, List.mem_singleton.mp hw ▸ hkeyword kind, hstands⟩

theorem keywordStands_of_mem_bindingStatements {b : BindingStatement}
    (hb : b ∈ bindingStatements text) : KeywordStands text (keywords b.kind) b.start := by
  obtain ⟨o, ho, he⟩ := List.mem_map.mp (mem_bindingStatements.mp hb)
  have hstart : b.start = o.start := by rw [← he]; rfl
  rw [hstart]
  refine keywordStands_of_mem_findAll ho fun s v left h => ?_
  obtain ⟨whole, rfl, hd⟩ := derives_of_read h
  exact beginsWithKeyword_of_derives hd

end Statements

/-- Every call, reference and binding statement of a text begins with its keyword, and so does what
each require record and each missing record of a file is for. The keyword is a token there if and
only if the character before it, if any, is none that a name could go on with. -/
theorem keywords_of_statements (text : String) :
    (∀ c ∈ requireCalls text, KeywordStands text ["require"] c.start) ∧
    (∀ r ∈ moduleReferences text, KeywordStands text ["require", "import"] r.start) ∧
    (∀ b ∈ bindingStatements text, KeywordStands text (keywords b.kind) b.start) ∧
    ∀ (lines : List Line) (file : String),
      (∀ dependencies, ∀ r ∈ findRequires lines file dependencies, ∃ line ∈ lines,
        line.number = r.line ∧ ∃ c ∈ requireCalls line.text, c.text = r.statement ∧
          packageName c.specifier = some r.name ∧ KeywordStands line.text ["require"] c.start) ∧
      ∀ sets, ∀ r ∈ findMissing lines file sets, ∃ line ∈ lines,
        line.number = r.line ∧ ∃ m ∈ moduleReferences line.text,
          packageName m.specifier = some r.name ∧
          KeywordStands line.text ["require", "import"] m.start := by
  refine ⟨fun _ => keywordStands_of_mem_requireCalls,
    fun _ => keywordStands_of_mem_moduleReferences,
    fun _ => keywordStands_of_mem_bindingStatements, fun lines file => ⟨?_, ?_⟩⟩
  · intro dependencies r hr
    obtain ⟨line, hl, c, hc, hname, -, he⟩ := mem_findRequires.mp hr
    exact ⟨line, hl, by rw [he], c, hc, by rw [he], hname, keywordStands_of_mem_requireCalls hc⟩
  · intro sets r hr
    obtain ⟨line, hl, m, hm, hname, -, -, he⟩ := mem_findMissing.mp hr
    exact ⟨line, hl, by rw [he], m, hm, hname, keywordStands_of_mem_moduleReferences hm⟩

theorem keywords_of_statements_roi_ink :
    let text := "let roi = require('roi'); import 'ink'"
    let call : RequireCall := ⟨"roi", "require('roi')", 10⟩
    let reference : ModuleReference := ⟨26, "ink"⟩
    let binding : BindingStatement := ⟨.require, "roi", "roi", "require('roi')", 0, 24⟩
    let record : RequireRecord := ⟨"roi", "require('roi')", "a.js", 1⟩
    let missing : MissingRecord := ⟨"ink", "a.js", 1⟩
    let dependencies : List Dependency := [⟨"roi", "1.0.0", .production⟩]
    (call ∈ requireCalls text ∧ KeywordStands text ["require"] 10) ∧
      (reference ∈ moduleReferences text ∧ KeywordStands text ["require", "import"] 26) ∧
      (binding ∈ bindingStatements text ∧ KeywordStands text declarators 0) ∧
      (record ∈ findRequires [⟨text, 1⟩] "a.js" dependencies ∧
        ∃ c ∈ requireCalls text, KeywordStands text ["require"] c.start) ∧
      (missing ∈ findMissing [⟨text, 1⟩] "a.js" (.production dependencies) ∧
        ∃ m ∈ moduleReferences text, KeywordStands text ["require", "import"] m.start) := by
  intro text call reference binding record missing dependencies
  obtain ⟨hcalls, hreferences, hbindings, hrecords⟩ := keywords_of_statements text
  obtain ⟨hrequires, hmissing⟩ := hrecords [⟨text, 1⟩] "a.js"
  have hcall : call ∈ requireCalls text := by decide +kernel
  have hreference : reference ∈ moduleReferences text := by decide +kernel
  have hbinding : binding ∈ bindingStatements text := by decide +kernel
  have hrecord : record ∈ findRequires [⟨text, 1⟩] "a.js" dependencies := by decide +kernel
  have hnone : missing ∈ findMissing [⟨text, 1⟩] "a.js" (.production dependencies) := by
    decide +kernel
  refine ⟨⟨hcall, hcalls _ hcall⟩, ⟨hreference, hreferences _ hreference⟩,
    ⟨hbinding, hbindings _ hbinding⟩, ⟨hrecord, ?_⟩, ⟨hnone, ?_⟩⟩
  · obtain ⟨line, hl, -, c, hc, -, -, hstands⟩ := hrequires dependencies record hrecord
    obtain rfl := List.mem_singleton.mp hl
    exact ⟨c, hc, hstands⟩
  · obtain ⟨line, hl, -, m, hm, -, hstands⟩ := hmissing (.production dependencies) missing hnone
    obtain rfl := List.mem_singleton.mp hl
    exact ⟨m, hm, hstands⟩

/-- A call of another function, whose name ends in the keyword behind a dollar sign. -/
theorem call_of_dollar_require :
    let text := "$require('x')"
    identifiers text = [⟨0, "$require"⟩, ⟨10, "x"⟩] ∧
      requireCalls text = [⟨"x", "require('x')", 1⟩] ∧ moduleReferences text = [⟨1, "x"⟩] ∧
      findRequires [⟨text, 1⟩] "a.js" [⟨"x", "1.0.0", .production⟩] =
        [⟨"x", "require('x')", "a.js", 1⟩] ∧
      findMissing [⟨text, 1⟩] "a.js" (.production []) = [⟨"x", "a.js", 1⟩] := by
  decide +kernel

end ImportLedger
