import Mathlib.Data.List.Flatten
import ImportLedger.Proofs.PackageNames
import ImportLedger.Proofs.Records
import ImportLedger.Proofs.ReferenceKinds

/-! Bindings and references. A call is never swallowed by an earlier one, unless its specifier
could be the end of that one, so every binding is met again among the references of its line. -/

namespace ImportLedger

open Pattern Text Occurrence

/-- Whether a text begins, blanks apart, with a closing bracket. -/
def closesAtOnce (s : List Char) : Bool := s.find? (!isBlank ·) == some ')'

theorem closesAtOnce_of_append {s b left rest : List Char} {c : Char} (hc : isBlank c = false)
    (hne : c ≠ ')') (hb : ∀ x ∈ b, isBlank x = true) (h : b ++ ')' :: left = s ++ c :: rest) :
    closesAtOnce s = true := by
  have hleft : (b ++ ')' :: left).find? (!isBlank ·) = some ')' := by
    have hnone : b.find? (!isBlank ·) = none := List.find?_eq_none.mpr fun x hx => by simp [hb x hx]
    rw [List.find?_append, hnone]
    rfl
  have hright : (s ++ c :: rest).find? (!isBlank ·) = (s.find? (!isBlank ·)).or (some c) := by
    rw [List.find?_append, List.find?_cons_of_pos (by simp [hc])]
  rw [h, hright] at hleft
  cases hs : s.find? (!isBlank ·) with
  | none => exact absurd (by simpa [hs] using hleft) hne
  | some d =>
    have hd : d = ')' := by simpa [hs] using hleft
    simp [closesAtOnce, hs, hd]

section Calls

open Shape

variable {keyword : String} {text s s' m m' left left' d e : List Char}

/-- A call's head begins with what is neither a blank nor a closing bracket. -/
theorem exists_cons_of_callHead {head : List Char} (hk : IsKeyword keyword)
    (h : (callHead keyword).Describes head) :
    ∃ c r, head = c :: r ∧ isBlank c = false ∧ c ≠ ')' := by
  obtain ⟨b, b', -, -, rfl⟩ := describes_callHead.mp h
  obtain ⟨c, r, hc⟩ := List.exists_cons_of_ne_nil hk.1
  have hc' := hk.2 c (by simp [hc])
  exact ⟨c, r ++ (b ++ '(' :: b'), by rw [hc]; rfl, hc'.1, hc'.2.2⟩

/-- No call begins within the head of another. -/
theorem callHead_ne_append {head head' : List Char} (hk : IsKeyword keyword)
    (h : (callHead keyword).Describes head) (h' : (callHead keyword).Describes head')
    (hd : d ≠ []) : head ≠ d ++ head' := by
  intro he
  have hink := congrArg ink he
  rw [ink_append, ink_callHead hk h, ink_callHead hk h'] at hink
  have hnil : ink d = [] := List.self_eq_append_left.mp hink
  obtain ⟨x, d', rfl⟩ := List.exists_cons_of_ne_nil hd
  obtain ⟨c, r, rfl, hc, -⟩ := exists_cons_of_callHead hk h
  obtain ⟨rfl, -⟩ := List.cons.inj he
  exact ink_cons_ne_nil hc hnil

/-- No call begins within what closes another. -/
theorem callHead_append_ne {b v head' rest : List Char} (hk : IsKeyword keyword)
    (h' : (callHead keyword).Describes head') (hb : ∀ x ∈ b, isBlank x = true) (he : e ≠ [])
    (ht : v ++ (e ++ left) = b ++ ')' :: left) : e ++ left ≠ head' ++ rest := by
  intro hhead
  have hend : v ++ e = b ++ [')'] := by
    rw [← List.append_assoc] at ht
    exact List.append_cancel_right (ht.trans (by simp))
  obtain ⟨x, e', rfl⟩ := List.exists_cons_of_ne_nil he
  obtain ⟨c, r, rfl, hc, hne⟩ := exists_cons_of_callHead hk h'
  obtain ⟨rfl, -⟩ := List.cons.inj hhead
  have hmem : x ∈ b ++ [')'] := by simp [← hend]
  rcases List.mem_append.mp hmem with hmem | hmem
  · rw [hb x hmem] at hc
    cases hc
  · exact hne (by simpa using hmem)

/-- A call that begins inside another call ends that one with its own specifier. -/
theorem closesAtOnce_of_overlap (hk : IsKeyword keyword)
    (hr : (call keyword).read s = some (m, left)) (hr' : (call keyword).read s' = some (m', left'))
    (hs : s = d ++ s') (hd : d ≠ []) (he : e ≠ []) (ht : s = d ++ (e ++ left)) :
    closesAtOnce m' = true := by
  obtain ⟨head, q, q₂, b, hhead, hq, hq₂, -, hm, hb, hsplit⟩ := (call_read_iff hk).mp hr
  obtain ⟨head', r, r₂, b', hhead', hr, hr₂, -, -, -, hsplit'⟩ := (call_read_iff hk).mp hr'
  have hno := not_isQuote_of_mem_callHead hk hhead
  have hno' := not_isQuote_of_mem_callHead hk hhead'
  have hboth : head ++ q :: (m ++ q₂ :: (b ++ ')' :: left)) =
      d ++ (head' ++ r :: (m' ++ r₂ :: (b' ++ ')' :: left'))) := by
    rw [← hsplit, ← hsplit', hs]
  have hjoin {v : List Char} (hv : ¬ ∃ x ∈ v, isQuote x = true) :
      ∀ x ∈ v ++ head', isQuote x = false := fun x hx => by
    rcases List.mem_append.mp hx with hx | hx
    · simpa using fun hq => hv ⟨x, hx, hq⟩
    · exact hno' x hx
  by_cases hfirst : ∃ x ∈ d, isQuote x = true
  · obtain ⟨u, c, v, hu, hc, rfl⟩ := exists_first hfirst
    rw [List.append_assoc, List.cons_append] at hboth
    obtain ⟨rfl, rfl, hinner⟩ := append_cons_inj_of_first hno hu hq hc hboth
    by_cases hsecond : ∃ x ∈ v, isQuote x = true
    · obtain ⟨u', c', v', hu', hc', rfl⟩ := exists_first hsecond
      rw [List.append_assoc, List.cons_append] at hinner
      obtain ⟨rfl, rfl, hlast⟩ := append_cons_inj_of_first hm hu' hq₂ hc' hinner
      have htail : v' ++ (e ++ left) = b ++ ')' :: left := by
        rw [hsplit] at ht
        simpa using ht.symm
      have hhead := List.append_cancel_left (htail.trans hlast)
      exact absurd hhead (callHead_append_ne hk hhead' hb he htail)
    · rw [← List.append_assoc] at hinner
      obtain ⟨-, -, hclose⟩ := append_cons_inj_of_first hm (hjoin hsecond) hq₂ hr hinner
      have hne : r₂ ≠ ')' := by
        rintro rfl
        exact absurd hr₂ (by decide)
      exact closesAtOnce_of_append (not_isBlank_of_isQuote hr₂) hne hb hclose
  · rw [← List.append_assoc] at hboth
    obtain ⟨hheads, -, -⟩ := append_cons_inj_of_first hno (hjoin hfirst) hq hr hboth
    exact absurd hheads (callHead_ne_append hk hhead hhead' hd)

theorem call_mem_findAll (hk : IsKeyword keyword) {p : List Char} (ht : text = p ++ s)
    (hw : wordMayFollow (lastOr none p) = true) (hr : (call keyword).read s = some (m, left))
    (hm : closesAtOnce m = false) :
    ⟨byteLength p, consumed s left, m⟩ ∈ findAll (call keyword).read text := by
  have hne : s ≠ [] := by
    rintro rfl
    obtain ⟨head, q, q', b, -, -, -, -, -, -, hs⟩ := (call_read_iff hk).mp hr
    simp at hs
  obtain ⟨c, r, rfl⟩ := List.exists_cons_of_ne_nil hne
  refine mem_findAll_of_clear ht hw hr ?_
  intro a ha hstart
  obtain ⟨p', c', r', m', left', htext, -, hread, rfl⟩ := mem_candidates.mp ha
  rw [Nat.zero_add] at hstart
  obtain ⟨d, hd, rfl, hs⟩ := exists_append_of_byteLength_lt (htext.symm.trans ht) hstart
  obtain ⟨o, close, -, -, -, hparts⟩ := ReferenceShape.read_sound hread
  have hwhole : c' :: r' = (o ++ m' ++ close) ++ left' := by simpa using hparts
  apply Nat.le_of_not_lt
  intro hlt
  have hshort : byteLength d < byteLength (o ++ m' ++ close) := by
    rw [stop, hwhole, consumed_append, byteLength_append p'] at hlt
    dsimp only at hlt
    omega
  obtain ⟨e, he, hed, -⟩ := exists_append_of_byteLength_lt (hs.symm.trans hwhole) hshort
  rw [hed, List.append_assoc] at hwhole
  have hclose := closesAtOnce_of_overlap hk hread hr hs hd he hwhole
  rw [hm] at hclose
  cases hclose

end Calls

namespace BindingStatement

/-- Byte offset of the reference, which ends where the statement does. -/
def referenceStart (b : BindingStatement) : Nat := b.stop - byteLength b.reference.toList

/-- The reference to a module that a binding makes. -/
def moduleReference (b : BindingStatement) : ModuleReference := ⟨b.referenceStart, b.specifier⟩

/-- The call that a binding is made by. -/
def requireCall (b : BindingStatement) : RequireCall := ⟨b.specifier, b.reference, b.referenceStart⟩

theorem referenceStart_eq {b : BindingStatement} {n : Nat}
    (h : n + byteLength b.reference.toList = b.stop) : b.referenceStart = n := by
  rw [referenceStart]
  omega

theorem moduleReference_eq {b : BindingStatement} {n : Nat}
    (h : n + byteLength b.reference.toList = b.stop) : b.moduleReference = ⟨n, b.specifier⟩ := by
  rw [moduleReference, referenceStart_eq h]

end BindingStatement

/-- Where a statement binds the value of a call, a word may begin after what joins the two. -/
theorem wordMayFollow_link {kind : BindingKind} (hk : kind ≠ .importFrom) {t : List Char}
    (h : kind.shape.link.Describes t) (before : Option Char) :
    wordMayFollow (lastOr before t) = true := by
  have hblank : ∀ {s : List Char}, (∀ c ∈ s, isBlank c = true) → ∀ c ∈ s, isWord c = false :=
    fun hs c hc => not_isWord_of_isBlank (hs c hc)
  have hequals : wordMayFollow (some '=') = true := by decide
  have hjoin {b b' : List Char} (hb' : ∀ c ∈ b', isBlank c = true) :
      wordMayFollow (lastOr before (b ++ "=".toList ++ b')) = true := by
    rw [lastOr_append, show "=".toList = ['='] from rfl, lastOr_concat]
    exact wordMayFollow_lastOr hequals (hblank hb')
  cases kind with
  | importFrom => exact absurd rfl hk
  | require =>
    obtain ⟨_, b', hlead, hb', rfl⟩ := describes_append.mp h
    obtain ⟨b, _, hb, heq, rfl⟩ := describes_append.mp hlead
    rw [describes_literal.mp heq]
    exact hjoin (describes_run.mp hb')
  | dynamicImport =>
    obtain ⟨_, w, hlead, hw, rfl⟩ := describes_append.mp h
    obtain ⟨_, b', hlead', hb', rfl⟩ := describes_append.mp hlead
    obtain ⟨b, _, hb, heq, rfl⟩ := describes_append.mp hlead'
    rw [describes_literal.mp heq]
    rcases describes_optional.mp hw with hawait | rfl
    · obtain ⟨_, u, -, hu, rfl⟩ := describes_append.mp hawait
      obtain ⟨hne, hu⟩ := describes_someOf.mp hu
      obtain ⟨c, u, rfl⟩ := List.exists_cons_of_ne_nil hne
      have hc : wordMayFollow (some c) = true := by
        simp [wordMayFollow, hblank hu c List.mem_cons_self]
      rw [← List.append_assoc, lastOr_append]
      have hmore : wordMayFollow (lastOr (some c) u) = true :=
        wordMayFollow_lastOr hc fun d hd => hblank hu d (List.mem_cons_of_mem _ hd)
      exact hmore
    · rw [List.append_nil]
      exact hjoin (describes_run.mp hb')

/-- A statement that binds the value of a call has that call at its end. -/
theorem call_of_mem_statements {kind : BindingKind} (hk : kind ≠ .importFrom) {text : List Char}
    {b : BindingStatement} (h : b ∈ kind.statements text) :
    ∃ p left, text = p ++ (b.reference.toList ++ left) ∧ wordMayFollow (lastOr none p) = true ∧
      kind.shape.reference.read (b.reference.toList ++ left) = some (b.specifier.toList, left) ∧
      b.start ≤ byteLength p ∧ byteLength p + byteLength b.reference.toList = b.stop := by
  obtain ⟨o, ho, rfl⟩ := List.mem_map.mp h
  obtain ⟨p, c, r, left, ht, -, hr, hstart, htext⟩ := exists_of_mem_findAll ho
  obtain ⟨lead, link, -, -, hlink, hread, hsplit⟩ := BindingShape.read_sound hr
  have hreference : (kind.statement o).reference.toList = o.value.reference := by
    cases kind with
    | importFrom => exact absurd rfl hk
    | require => exact String.toList_ofList
    | dynamicImport => exact String.toList_ofList
  have hspecifier : (kind.statement o).specifier.toList = o.value.specifier :=
    String.toList_ofList
  have hwhole : c :: r = (lead ++ o.value.binding ++ link ++ o.value.reference) ++ left := by
    simpa using hsplit
  refine ⟨p ++ (lead ++ o.value.binding ++ link), left, ?_, ?_, ?_, ?_, ?_⟩
  · rw [ht, hwhole, hreference]
    simp
  · rw [lastOr_append, lastOr_append]
    exact wordMayFollow_link hk hlink _
  · rw [hreference, hspecifier]
    exact hread
  · have hstart' : (kind.statement o).start = o.start := rfl
    rw [hstart', hstart, byteLength_append]
    omega
  · have hstop : (kind.statement o).stop = o.start + byteLength o.text := rfl
    rw [hstop, hstart, htext, hwhole, consumed_append, hreference]
    simp only [byteLength_append]
    omega

theorem call_mem_of_mem_statements {kind : BindingKind} {keyword : String}
    (hk : kind ≠ .importFrom) (hshape : kind.shape.reference = Shape.call keyword)
    (hword : Shape.IsKeyword keyword) {text : List Char} {b : BindingStatement}
    (h : b ∈ kind.statements text) (hb : closesAtOnce b.specifier.toList = false) :
    ⟨b.referenceStart, b.reference.toList, b.specifier.toList⟩ ∈
      findAll (Shape.call keyword).read text := by
  obtain ⟨p, left, ht, hw, hr, -, hstop⟩ := call_of_mem_statements hk h
  rw [hshape] at hr
  have hh := call_mem_findAll hword ht hw hr hb
  rwa [consumed_append, ← BindingStatement.referenceStart_eq hstop] at hh

theorem stop_importFrom (o : Occurrence BindingReading) :
    o.start + byteLength (BindingKind.importFrom.statement o).reference.toList = o.stop := by
  show o.start + byteLength (String.ofList o.text).toList = o.stop
  rw [String.toList_ofList, stop]

theorem referenceStart_importFrom (o : Occurrence BindingReading) :
    (BindingKind.importFrom.statement o).referenceStart = o.start :=
  BindingStatement.referenceStart_eq (stop_importFrom o)

theorem requireCall_mem {text : String} {b : BindingStatement} (h : b ∈ bindingStatements text)
    (hk : b.kind = .require) (hb : closesAtOnce b.specifier.toList = false) :
    b.requireCall ∈ requireCalls text := by
  have hmem := mem_bindingStatements.mp h
  rw [hk] at hmem
  have hh := call_mem_of_mem_statements (by decide) rfl Shape.isKeyword_require hmem hb
  refine List.mem_map.mpr ⟨_, hh, ?_⟩
  simp [BindingStatement.requireCall]

theorem moduleReference_mem {text : String} {b : BindingStatement}
    (h : b ∈ bindingStatements text) (hb : closesAtOnce b.specifier.toList = false) :
    b.moduleReference ∈ moduleReferences text := by
  have hmem := mem_bindingStatements.mp h
  apply ReferenceKind.mem_moduleReferences.mpr
  cases hk : b.kind with
  | require =>
    rw [hk] at hmem
    have hh := call_mem_of_mem_statements (by decide) rfl Shape.isKeyword_require hmem hb
    refine ⟨.require, List.mem_map.mpr ⟨_, hh, ?_⟩⟩
    simp [BindingStatement.moduleReference, ReferenceKind.reference]
  | dynamicImport =>
    rw [hk] at hmem
    have hh := call_mem_of_mem_statements (by decide) rfl Shape.isKeyword_import hmem hb
    refine ⟨.dynamicImport, List.mem_map.mpr ⟨_, hh, ?_⟩⟩
    simp [BindingStatement.moduleReference, ReferenceKind.reference]
  | importFrom =>
    rw [hk] at hmem
    obtain ⟨o, ho, rfl⟩ := List.mem_map.mp hmem
    refine ⟨.importFrom, ?_⟩
    rw [ReferenceKind.references_importFrom]
    refine List.mem_map.mpr ⟨o, ho, ?_⟩
    rw [BindingStatement.moduleReference, referenceStart_importFrom]
    rfl

theorem referenceStart_bounds {text : List Char} {b : BindingStatement}
    (h : b ∈ BindingKind.require.statements text) :
    b.start ≤ b.referenceStart ∧ b.referenceStart < b.stop := by
  obtain ⟨p, left, -, -, hr, hstart, hstop⟩ := call_of_mem_statements (by decide) h
  have hne : b.reference.toList ≠ [] := by
    intro hnil
    obtain ⟨head, q, q', c, -, -, -, -, -, -, hs⟩ :=
      (Shape.call_read_iff Shape.isKeyword_require).mp hr
    have hlen := congrArg List.length hs
    simp [hnil] at hlen
    omega
  have hpos := byteLength_pos hne
  rw [BindingStatement.referenceStart_eq hstop]
  omega

theorem referenceStart_add {text : String} {b : BindingStatement}
    (h : b ∈ bindingStatements text) :
    b.start ≤ b.referenceStart ∧ b.referenceStart + byteLength b.reference.toList = b.stop := by
  have hmem := mem_bindingStatements.mp h
  by_cases hk : b.kind = .importFrom
  · rw [hk] at hmem
    obtain ⟨o, -, rfl⟩ := List.mem_map.mp hmem
    rw [referenceStart_importFrom]
    exact ⟨Nat.le_refl _, stop_importFrom o⟩
  · obtain ⟨p, left, -, -, -, hstart, hstop⟩ := call_of_mem_statements hk hmem
    rw [BindingStatement.referenceStart_eq hstop]
    exact ⟨hstart, hstop⟩

/-- The bound calls are, in order, some of the calls of their line. -/
theorem requireCalls_sublist (text : String) :
    (((bindingStatements text).filter fun b =>
      b.kind == .require && !closesAtOnce b.specifier.toList).map (·.requireCall)).Sublist
        (requireCalls text) := by
  have hkind : (bindingStatements text).filter (fun b =>
      b.kind == .require && !closesAtOnce b.specifier.toList) =
        (BindingKind.require.statements text.toList).filter
          (!closesAtOnce ·.specifier.toList) := by
    rw [← filter_kind_bindingStatements, List.filter_filter]
    exact List.filter_congr fun b _ => Bool.and_comm _ _
  rw [hkind]
  refine sublist_of_subset_of_keys (f := (·.start)) ?_ ?_ (requireCalls_pairwise text)
  · intro call hcall
    obtain ⟨b, hb, rfl⟩ := List.mem_map.mp hcall
    obtain ⟨hmem, hclose⟩ := List.mem_filter.mp hb
    have hk := BindingKind.kind_of_mem_statements hmem
    exact requireCall_mem (mem_bindingStatements.mpr (hk ▸ hmem)) hk (by simpa using hclose)
  · refine List.pairwise_map.mpr (List.Pairwise.filter _ ?_)
    refine (BindingKind.require.statements_disjoint text.toList).imp_of_mem ?_
    intro a b ha hb hab
    have hstart := referenceStart_bounds ha
    have hstop := referenceStart_bounds hb
    show a.referenceStart < b.referenceStart
    omega

theorem closesAtOnce_packageName {specifier name : String} (h : packageName specifier = some name) :
    closesAtOnce name.toList = closesAtOnce specifier.toList := by
  rcases (packageName_iff_isPackageOf.mp h).2.cut with hs | ⟨path, hs⟩
  · rw [hs]
  · rw [hs, closesAtOnce, closesAtOnce, List.find?_append]
    cases hp : name.toList.find? (!isBlank ·) with
    | some c => simp
    | none =>
      have hslash : ('/' :: path).find? (!isBlank ·) = some '/' :=
        List.find?_cons_of_pos (by decide)
      simp [hslash]

/-- The record of the call that a declaration is made by. -/
def Declaration.requireRecord (d : Declaration) : RequireRecord :=
  ⟨d.name, d.reference, d.file, d.line⟩

section Finders

variable {dependencies : List Dependency}

theorem closesAtOnce_of_declared (h : ∀ d ∈ dependencies, closesAtOnce d.name.toList = false)
    {specifier name : String} (hs : declaredPackage? dependencies specifier = some name) :
    closesAtOnce specifier.toList = false := by
  obtain ⟨hp, hname⟩ := declaredPackage?_eq_some.mp hs
  obtain ⟨d, hd, rfl⟩ := List.mem_map.mp hname
  rw [← closesAtOnce_packageName hp]
  exact h d hd

theorem requireRecords_onLine (h : ∀ d ∈ dependencies, closesAtOnce d.name.toList = false)
    (file : String) (line : Line) :
    (((Declaration.onLine file dependencies line).filter (·.kind == .require)).map
      (·.requireRecord)).Sublist (RequireRecord.onLine file dependencies line) := by
  have he : ((Declaration.onLine file dependencies line).filter (·.kind == .require)).map
      (·.requireRecord) =
        (((bindingStatements line.text).filter fun b =>
          b.kind == .require && !closesAtOnce b.specifier.toList).map (·.requireCall)).filterMap
            fun call => (declaredPackage? dependencies call.specifier).map fun name =>
              { name, statement := call.text, file, line := line.number } := by
    rw [Declaration.onLine, List.filter_filterMap, List.map_filterMap, List.filterMap_map,
      List.filterMap_filter]
    refine List.filterMap_congr fun b _ => ?_
    cases hd : declaredPackage? dependencies b.specifier with
    | none => simp [hd, BindingStatement.requireCall]
    | some name =>
      have hclose := closesAtOnce_of_declared h hd
      by_cases hk : b.kind = .require
      · simp [hd, hk, hclose, BindingStatement.requireCall, Declaration.requireRecord]
      · simp [hk]
  rw [he]
  exact (requireCalls_sublist line.text).filterMap _

theorem requireRecords_sublist (h : ∀ d ∈ dependencies, closesAtOnce d.name.toList = false)
    (lines : List Line) (file : String) :
    (((findDeclarations lines file dependencies).filter (·.kind == .require)).map
      (·.requireRecord)).Sublist (findRequires lines file dependencies) := by
  rw [findDeclarations, List.filter_flatMap, List.map_flatMap, findRequires]
  exact List.Sublist.flatMap_right lines fun line _ => requireRecords_onLine h file line

theorem missing_of_binding {lines : List Line} {line : Line} (hl : line ∈ lines) (file : String)
    {sets : DependencySets} {b : BindingStatement} (h : b ∈ bindingStatements line.text)
    (hb : closesAtOnce b.specifier.toList = false) {name : String}
    (hp : packageName b.specifier = some name) (hbuiltin : isBuiltin name = false)
    (hsets : sets.contains name = false) :
    ⟨name, file, line.number⟩ ∈ findMissing lines file sets :=
  mem_findMissing.mpr ⟨line, hl, _, moduleReference_mem h hb, hp, hbuiltin, hsets, rfl⟩

end Finders

/-- No binding escapes the finders of references. A binding whose specifier does
not begin with a closing bracket is met again among the references of its line,
at the place where its own reference stands; if it binds a `require` call, that
call is found as it is written. The calls of different bindings are different
ones, and in order. So every declaration made by a call has its own record among
the `require` records, and a bound package that no one declares is missing. -/
theorem bindings_referenced (lines : List Line) (file : String) (dependencies : List Dependency)
    (sets : DependencySets) :
    (∀ (text : String), ∀ b ∈ bindingStatements text, closesAtOnce b.specifier.toList = false →
      b.start ≤ b.referenceStart ∧
      b.referenceStart + byteLength b.reference.toList = b.stop ∧
      b.moduleReference ∈ moduleReferences text ∧
      (b.kind = .require → b.requireCall ∈ requireCalls text)) ∧
    (∀ text : String, (requireCalls text).Pairwise (·.start < ·.start) ∧
      (((bindingStatements text).filter fun b =>
        b.kind == .require && !closesAtOnce b.specifier.toList).map (·.requireCall)).Sublist
          (requireCalls text)) ∧
    ((∀ d ∈ dependencies, closesAtOnce d.name.toList = false) →
      (((findDeclarations lines file dependencies).filter (·.kind == .require)).map
        (·.requireRecord)).Sublist (findRequires lines file dependencies)) ∧
    ∀ line ∈ lines, ∀ b ∈ bindingStatements line.text,
      closesAtOnce b.specifier.toList = false →
      ∀ name, packageName b.specifier = some name → isBuiltin name = false →
        sets.contains name = false → ⟨name, file, line.number⟩ ∈ findMissing lines file sets := by
  refine ⟨?_, ?_, fun h => requireRecords_sublist h lines file, ?_⟩
  · intro text b hb hclose
    have hstop := referenceStart_add hb
    exact ⟨hstop.1, hstop.2, moduleReference_mem hb hclose, fun hk => requireCall_mem hb hk hclose⟩
  · intro text
    exact ⟨requireCalls_pairwise text, requireCalls_sublist text⟩
  · intro line hl b hb hclose name hp hbuiltin hsets
    exact missing_of_binding hl file hb hclose hp hbuiltin hsets

theorem bindings_referenced_roi_tape :
    let lines : List Line := [⟨"require('tape'); const roi = require('roi'), x = 1", 1⟩]
    let production : List Dependency := [⟨"roi", "0.15.0", .production⟩]
    findDeclarations lines "x.js" production =
      [⟨"roi", "roi", "require('roi')", .require, "x.js", 1, 17, 43⟩] ∧
    [⟨"roi", "require('roi')", "x.js", 1⟩].Sublist (findRequires lines "x.js" production) ∧
    ⟨"roi", "x.js", 1⟩ ∈ findMissing lines "x.js" (.production []) := by
  intro lines production
  have hh := bindings_referenced lines "x.js" production (.production [])
  have hd : findDeclarations lines "x.js" production =
      [⟨"roi", "roi", "require('roi')", .require, "x.js", 1, 17, 43⟩] := by decide +kernel
  have hclose : ∀ d ∈ production, closesAtOnce d.name.toList = false := by decide +kernel
  refine ⟨hd, ?_, ?_⟩
  · have hs := hh.2.2.1 hclose
    rw [hd] at hs
    exact hs
  · exact hh.2.2.2 _ List.mem_cons_self
      ⟨.require, "roi", "roi", "require('roi')", 17, 43⟩ (by decide +kernel) (by decide +kernel)
      "roi" (by decide +kernel) (by decide +kernel) (by decide +kernel)

end ImportLedger
