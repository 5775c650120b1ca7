import ImportLedger.Proofs.BindingGrammar
import ImportLedger.Proofs.StatementOrder

/-! The search for binding statements against their grammar. What is found is derived at the place
where it is found, and no derivation is missed that does not begin within something found. -/

namespace ImportLedger

open Text Occurrence

namespace Grammar

/-- A binding statement that a text holds at a byte offset, where a word may begin. -/
def DerivesAt (text : List Char) (offset : Nat) (kind : BindingKind)
    (binding specifier reference whole : List Char) : Prop :=
  ∃ before after, text = before ++ (whole ++ after) ∧ offset = byteLength before ∧
    (∀ c ∈ before.getLast?, isWord c = false) ∧ Derives kind binding specifier reference whole

variable {kind : BindingKind} {binding specifier reference whole : List Char}

theorem Derives.reference_suffix (h : Derives kind binding specifier reference whole) :
    reference <:+ whole := by
  cases h with
  | @require word b b' b'' =>
    exact ⟨word.toList ++ (b ++ (binding ++ (b' ++ '=' :: b''))), by simp⟩
  | @dynamicImport word b b' b'' wait =>
    exact ⟨word.toList ++ (b ++ (binding ++ (b' ++ '=' :: (b'' ++ wait)))), by simp⟩
  | importFrom => exact List.suffix_refl _

end Grammar

open Grammar

theorem derivesAt_of_mem_statements {kind : BindingKind} {text : List Char} {b : BindingStatement}
    (h : b ∈ kind.statements text) :
    ∃ whole, DerivesAt text b.start kind b.binding.toList b.specifier.toList b.reference.toList
        whole ∧ b.start + byteLength whole = b.stop ∧ b.reference.toList <:+ whole := by
  obtain ⟨o, ho, rfl⟩ := List.mem_map.mp h
  obtain ⟨p, c, r, left, ht, hw, hr, hstart, htext⟩ := exists_of_mem_findAll ho
  obtain ⟨whole, hs, hd⟩ := derives_of_read hr
  rw [hs, consumed_append] at htext
  have hderives : Derives kind (kind.statement o).binding.toList (kind.statement o).specifier.toList
      (kind.statement o).reference.toList whole := by
    simp only [BindingKind.statement, String.toList_ofList]
    cases kind with
    | require => exact hd
    | dynamicImport => exact hd
    | importFrom => rwa [htext]
  refine ⟨whole, ⟨p, left, by rw [ht, hs], hstart, ?_, hderives⟩, ?_, hderives.reference_suffix⟩
  · rw [← lastOr_none]
    exact wordMayFollow_iff.mp hw
  · show o.start + byteLength whole = o.start + byteLength o.text
    rw [htext]

theorem exists_statement_of_derivesAt {kind : BindingKind}
    {text binding specifier reference whole : List Char} {offset : Nat}
    (h : DerivesAt text offset kind binding specifier reference whole) :
    ∃ b ∈ kind.statements text, b.start = offset ∨ b.start < offset ∧ offset < b.stop := by
  obtain ⟨p, left, rfl, rfl, hw, hd⟩ := h
  obtain ⟨⟨v, rest⟩, hr⟩ := exists_read_of_derives hd left
  have hmay : wordMayFollow (lastOr none p) = true := by
    rw [lastOr_none]
    exact wordMayFollow_iff.mpr hw
  obtain ⟨c, r, hcr⟩ := List.exists_cons_of_ne_nil hd.ne_nil
  rw [hcr] at hr ⊢
  rcases mem_findAll_or_covered rfl hmay hr with hfound | ⟨a, ha, hcover⟩
  · exact ⟨_, List.mem_map_of_mem hfound, .inl rfl⟩
  · exact ⟨kind.statement a, List.mem_map_of_mem ha, .inr hcover⟩

/-- The search for the binding statements of a kind finds what the grammar of the kind derives.
Each statement found is derived where it begins, ends with its reference where the derivation ends,
and no two of them overlap; a derivation that begins anywhere is found or begins within a statement
that was found before it. -/
theorem statements_of_grammar (text : String) (kind : BindingKind) :
    let found := (bindingStatements text).filter (·.kind == kind)
    (∀ b ∈ found, ∃ whole,
      DerivesAt text.toList b.start kind b.binding.toList b.specifier.toList b.reference.toList
        whole ∧ b.start + byteLength whole = b.stop ∧ b.reference.toList <:+ whole) ∧
    found.Pairwise (·.stop ≤ ·.start) ∧
    ∀ offset binding specifier reference whole,
      DerivesAt text.toList offset kind binding specifier reference whole →
      ∃ b ∈ found, b.start = offset ∨ b.start < offset ∧ offset < b.stop := by
  intro found
  have hfound : found = kind.statements text.toList := filter_kind_bindingStatements kind text
  rw [hfound]
  refine ⟨fun b hb => derivesAt_of_mem_statements hb, kind.statements_disjoint text.toList, ?_⟩
  intro offset binding specifier reference whole h
  exact exists_statement_of_derivesAt h

/-- A declaration within the braces of another, which is found in its place. -/
theorem statements_of_grammar_nested :
    DerivesAt "const \x7blet a=require('b')\x7d=require('c')".toList 7 .require ['a'] ['b']
        "require('b')".toList "let a=require('b')".toList ∧
      ∃ b ∈ (bindingStatements "const \x7blet a=require('b')\x7d=require('c')").filter
          (·.kind == .require), b.start = 7 ∨ b.start < 7 ∧ 7 < b.stop := by
  have hblanks : Blanks [] := fun _ hc => absurd hc List.not_mem_nil
  have hblank : ∀ c ∈ [' '], isBlank c = true := List.forall_mem_singleton.mpr rfl
  have hcall : Call "require" ['b'] "require('b')".toList :=
    .intro hblanks hblanks hblanks
      (.intro (by decide : Shape.isQuote '\'' = true) (by decide : Shape.isQuote '\'' = true)
        (by decide) (List.forall_mem_singleton.mpr rfl))
  have hderives : Derives .require ['a'] ['b'] "require('b')".toList "let a=require('b')".toList :=
    .require (by decide : "let" ∈ declarators) hblank (by decide)
      (.name (.intro (by decide) (fun _ hc => absurd hc List.not_mem_nil))) hblanks hblanks hcall
  have hbrace : ∀ c ∈ "const \x7b".toList.getLast?, isWord c = false := by
    rintro c ⟨⟩
    rfl
  have hat : DerivesAt "const \x7blet a=require('b')\x7d=require('c')".toList 7 .require ['a'] ['b']
      "require('b')".toList "let a=require('b')".toList :=
    ⟨"const \x7b".toList, "\x7d=require('c')".toList, by decide, by decide, hbrace, hderives⟩
  exact ⟨hat, (statements_of_grammar _ .require).2.2 _ _ _ _ _ hat⟩

end ImportLedger
