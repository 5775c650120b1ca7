import ImportLedger.Proofs.Records

/-! The package of a specifier. A specifier is cut at a slash, a scoped one at its second, so that
a package is its own package and that of every path into it. -/

namespace ImportLedger

/-- What names no package: nothing at all, a path, and what is put together when the program
runs. -/
def NamesNoPackage (s : List Char) : Prop :=
  s = [] ∨ s.head? = some '.' ∨ s.head? = some '/' ∨ ['$', '{'] <:+: s

/-- How many slashes stand in a package that a path follows: the one behind a scope. -/
def slashesWithin (s : List Char) : Nat := if s.head? = some '@' then 1 else 0

/-- The beginning of a specifier that is its package. -/
structure IsPackageOf (name specifier : List Char) : Prop where
  ne_nil : name ≠ []
  cut : specifier = name ∨ ∃ path, specifier = name ++ '/' :: path
  slashes_le : name.count '/' ≤ slashesWithin specifier
  slashes_eq : '/' ∈ specifier → name.count '/' = slashesWithin specifier

section Interpolation

variable {s p t : List Char}

theorem hasInterpolation_iff : hasInterpolation s = true ↔ ['$', '{'] <:+: s := by
  fun_induction hasInterpolation s with
  | case1 rest => simp [List.infix_cons_iff]
  | case2 c rest hne ih =>
    have hprefix : ¬ ['$', '{'] <+: c :: rest := by
      rintro ⟨t, ht⟩
      obtain ⟨rfl, rfl⟩ := List.cons.inj ht
      exact hne t rfl rfl
    rw [ih, List.infix_cons_iff]
    exact (or_iff_right hprefix).symm
  | case3 => simp

/-- No interpolation begins before a slash and ends behind it. -/
theorem interpolation_append_slash (hp : ¬ ['$', '{'] <:+: p) (ht : ¬ ['$', '{'] <:+: t) :
    ¬ ['$', '{'] <:+: p ++ '/' :: t := by
  induction p with
  | nil => simpa [List.infix_cons_iff] using ht
  | cons c p ih =>
    rw [List.infix_cons_iff, not_or] at hp
    rw [List.cons_append, List.infix_cons_iff, not_or]
    refine ⟨?_, ih hp.2⟩
    cases p with
    | nil => simp
    | cons d p => simpa using hp.1

theorem not_namesNoPackage_append (hp : ¬ NamesNoPackage p) (ht : ¬ ['$', '{'] <:+: t) :
    ¬ NamesNoPackage (p ++ '/' :: t) := by
  simp only [NamesNoPackage, not_or] at hp ⊢
  obtain ⟨hne, hdot, hslash, hinfix⟩ := hp
  obtain ⟨c, r, rfl⟩ := List.exists_cons_of_ne_nil hne
  exact ⟨List.cons_ne_nil _ _, hdot, hslash, interpolation_append_slash hinfix ht⟩

end Interpolation

section Cuts

variable {s p p' r r' : List Char} {c : Char}

theorem eq_of_dropWhile_eq_cons {d : Char} (h : s.dropWhile (· != c) = d :: r) :
    s = s.takeWhile (· != c) ++ c :: r := by
  have hne := List.head?_dropWhile_not (· != c) s
  rw [h] at hne
  have hd : d = c := by simpa using hne
  calc s = s.takeWhile (· != c) ++ s.dropWhile (· != c) := List.takeWhile_append_dropWhile.symm
    _ = s.takeWhile (· != c) ++ c :: r := by rw [h, hd]

theorem eq_takeWhile_or (s : List Char) (c : Char) :
    s = s.takeWhile (· != c) ∨
      ∃ d r, s.dropWhile (· != c) = d :: r ∧ s = s.takeWhile (· != c) ++ c :: r := by
  cases hd : s.dropWhile (· != c) with
  | nil =>
    have hs := List.takeWhile_append_dropWhile (p := (· != c)) (l := s)
    rw [hd, List.append_nil] at hs
    exact .inl hs.symm
  | cons d r => exact .inr ⟨d, r, rfl, eq_of_dropWhile_eq_cons hd⟩

theorem count_takeWhile_ne (s : List Char) (c : Char) : (s.takeWhile (· != c)).count c = 0 := by
  refine List.count_eq_zero.mpr fun h => ?_
  have hne := List.all_eq_true.mp (List.all_takeWhile (p := (· != c)) (l := s)) c h
  simp at hne

/-- Behind equally many characters of a kind a text is cut at the same one. -/
theorem append_cons_inj_of_count (h : p ++ c :: r = p' ++ c :: r') (hc : p.count c = p'.count c) :
    p = p' := by
  have hlonger {p p' r r' d : List Char} (hp : p' = p ++ d) (hd : c :: r = d ++ c :: r')
      (hc : p.count c = p'.count c) : p = p' := by
    cases d with
    | nil => rw [hp, List.append_nil]
    | cons x d =>
      rw [hp, ← (List.cons.inj hd).1, List.count_append, List.count_cons_self] at hc
      omega
  rcases List.append_eq_append_iff.mp h with ⟨d, hp, hd⟩ | ⟨d, hp, hd⟩
  · exact hlonger hp hd hc
  · exact (hlonger hp hd hc.symm).symm

/-- Whether a text is the other up to the slash at which it is cut, or all of it if it has no such
slash. -/
def CutAt (p s : List Char) : Prop :=
  (s = p ∧ s.count '/' ≤ slashesWithin s) ∨
    ∃ r, s = p ++ '/' :: r ∧ p.count '/' = slashesWithin s

theorem CutAt.eq (h : CutAt p s) (h' : CutAt p' s) : p = p' := by
  have hlong {q r : List Char} (hs : s = q ++ '/' :: r) (hq : q.count '/' = slashesWithin s) :
      ¬ s.count '/' ≤ slashesWithin s := by
    rw [← hq, hs, List.count_append, List.count_cons_self]
    omega
  rcases h with ⟨hs, hle⟩ | ⟨r, hs, hc⟩
  · rcases h' with ⟨hs', -⟩ | ⟨r', hs', hc'⟩
    · exact hs.symm.trans hs'
    · exact absurd hle (hlong hs' hc')
  · rcases h' with ⟨-, hle'⟩ | ⟨r', hs', hc'⟩
    · exact absurd hle' (hlong hs hc)
    · exact append_cons_inj_of_count (hs.symm.trans hs') (hc.trans hc'.symm)

theorem cutAt_packagePart (s : List Char) : CutAt (packagePart s) s := by
  have hzero := count_takeWhile_ne s '/'
  unfold packagePart
  split
  · rename_i t d rest hd
    have hs := eq_of_dropWhile_eq_cons hd
    have hone := count_takeWhile_ne rest '/'
    have hscope : slashesWithin ('@' :: t) = 1 := rfl
    rcases eq_takeWhile_or rest '/' with hr | ⟨-, r, -, hr⟩
    · rw [← hr] at hone ⊢
      have hcount := congrArg (List.count '/') hs
      rw [List.count_append, List.count_cons_self, hzero, hone] at hcount
      exact .inl ⟨hs, Nat.le_of_eq (hcount.trans hscope.symm)⟩
    · refine .inr ⟨r, ?_, ?_⟩
      · rw [List.append_assoc, List.cons_append, ← hr]
        exact hs
      · rw [List.count_append, List.count_cons_self, hzero, hone, hscope]
  · rename_i s _ _ hne
    rcases eq_takeWhile_or s '/' with hs | ⟨d, r, hd, hs⟩
    · rw [← hs] at hzero
      exact .inl ⟨hs, by rw [hzero]; exact Nat.zero_le _⟩
    · have hscope : s.head? ≠ some '@' := by
        intro hc
        obtain ⟨t, ht⟩ := List.head?_eq_some_iff.mp hc
        exact hne t d r ht hd
      exact .inr ⟨r, hs, hzero.trans (if_neg hscope).symm⟩

theorem packagePart_eq_iff : packagePart s = p ↔ CutAt p s :=
  ⟨fun h => h ▸ cutAt_packagePart s, (cutAt_packagePart s).eq⟩

theorem slashesWithin_le (s : List Char) : slashesWithin s ≤ 1 := by
  rw [slashesWithin]
  split <;> omega

theorem isPackageOf_iff : IsPackageOf p s ↔ p ≠ [] ∧ packagePart s = p := by
  rw [packagePart_eq_iff]
  constructor
  · intro h
    refine ⟨h.ne_nil, ?_⟩
    rcases h.cut with rfl | ⟨path, hs⟩
    · exact .inl ⟨rfl, h.slashes_le⟩
    · exact .inr ⟨path, hs, h.slashes_eq (by simp [hs])⟩
  · rintro ⟨hne, ⟨rfl, hle⟩ | ⟨path, hs, hcount⟩⟩
    · refine ⟨hne, .inl rfl, hle, fun hslash => ?_⟩
      have hpos := List.count_pos_iff.mpr hslash
      have hone := slashesWithin_le s
      omega
    · exact ⟨hne, .inr ⟨path, hs⟩, Nat.le_of_eq hcount, fun _ => hcount⟩

namespace IsPackageOf

theorem head?_eq (h : IsPackageOf p s) : s.head? = p.head? := by
  obtain ⟨c, t, hp⟩ := List.exists_cons_of_ne_nil h.ne_nil
  rcases h.cut with rfl | ⟨path, rfl⟩
  · rfl
  · rw [hp]
    rfl

theorem count_le (h : IsPackageOf p s) : p.count '/' ≤ slashesWithin p := by
  have hle := h.slashes_le
  rwa [slashesWithin, h.head?_eq] at hle

theorem self (h : IsPackageOf p s) : IsPackageOf p p :=
  isPackageOf_iff.mpr ⟨h.ne_nil, packagePart_eq_iff.mpr (.inl ⟨rfl, h.count_le⟩)⟩

/-- A package takes in every path below it, unless it is a scope alone, which a path completes. -/
theorem append_path (h : IsPackageOf p s) (hp : p.head? ≠ some '@' ∨ '/' ∈ p) (path : List Char) :
    IsPackageOf p (p ++ '/' :: path) := by
  have hle := h.count_le
  have hcount : p.count '/' = slashesWithin p := by
    rcases hp with hscope | hslash
    · have hnone : slashesWithin p = 0 := if_neg hscope
      omega
    · have hpos := List.count_pos_iff.mpr hslash
      have hone := slashesWithin_le p
      omega
  obtain ⟨c, t, hc⟩ := List.exists_cons_of_ne_nil h.ne_nil
  have hsame : slashesWithin (p ++ '/' :: path) = slashesWithin p := by
    rw [hc]
    rfl
  exact isPackageOf_iff.mpr ⟨h.ne_nil, packagePart_eq_iff.mpr
    (.inr ⟨path, rfl, hcount.trans hsame.symm⟩)⟩

theorem not_namesNoPackage (h : IsPackageOf p s) (hs : ¬ NamesNoPackage s) :
    ¬ NamesNoPackage p := by
  rw [NamesNoPackage, h.head?_eq] at hs
  rintro (hnil | hdot | hslash | hinfix)
  · exact h.ne_nil hnil
  · exact hs (.inr (.inl hdot))
  · exact hs (.inr (.inr (.inl hslash)))
  · refine hs (.inr (.inr (.inr ?_)))
    rcases h.cut with rfl | ⟨path, rfl⟩
    · exact hinfix
    · exact hinfix.trans (List.prefix_append _ _).isInfix

end IsPackageOf

end Cuts

section Names

variable {s p : String}

theorem packageName_eq_some :
    packageName s = some p ↔ ¬ NamesNoPackage s.toList ∧ packagePart s.toList = p.toList := by
  rw [packageName, NamesNoPackage, ← hasInterpolation_iff]
  generalize s.toList = t
  split
  · simp
  · simp
  · simp
  · rename_i hne hdot hslash
    have hhead (c : Char) (h : ∀ r, t = c :: r → False) : t.head? ≠ some c := by
      intro hc
      obtain ⟨r, hr⟩ := List.head?_eq_some_iff.mp hc
      exact h r hr
    have hname : some (String.ofList (packagePart t)) = some p ↔ packagePart t = p.toList := by
      rw [Option.some.injEq, ← String.toList_inj, String.toList_ofList]
    by_cases hi : hasInterpolation t = true
    · simp [hi]
    · rw [if_neg hi, hname]
      simp [hi, hhead _ hdot, hhead _ hslash, show t ≠ [] from hne]

theorem packageName_eq_none : packageName s = none ↔ NamesNoPackage s.toList := by
  rw [Option.eq_none_iff_forall_ne_some]
  constructor
  · intro h
    refine Classical.byContradiction fun hs => h (String.ofList (packagePart s.toList)) ?_
    exact packageName_eq_some.mpr ⟨hs, String.toList_ofList.symm⟩
  · intro hs p h
    exact (packageName_eq_some.mp h).1 hs

theorem packageName_iff_isPackageOf :
    packageName s = some p ↔ ¬ NamesNoPackage s.toList ∧ IsPackageOf p.toList s.toList := by
  rw [packageName_eq_some, isPackageOf_iff]
  refine and_congr_right fun hs => (and_iff_right_of_imp fun hp => ?_).symm
  -- A specifier that is cut before its first character is empty or a path.
  intro hnil
  rw [hnil, packagePart_eq_iff] at hp
  rcases hp with ⟨hempty, -⟩ | ⟨r, hslash, -⟩
  · exact hs (.inl hempty)
  · exact hs (.inr (.inr (.inl (by rw [hslash]; rfl))))

theorem packageName_ne_empty (h : packageName s = some p) : p ≠ "" := by
  rintro rfl
  exact (packageName_iff_isPackageOf.mp h).2.ne_nil rfl

theorem packageName_self (h : packageName s = some p) : packageName p = some p := by
  obtain ⟨hs, hp⟩ := packageName_iff_isPackageOf.mp h
  exact packageName_iff_isPackageOf.mpr ⟨hp.not_namesNoPackage hs, hp.self⟩

theorem packageName_append_path (h : packageName s = some p)
    (hp : p.toList.head? ≠ some '@' ∨ '/' ∈ p.toList) {path : String}
    (hpath : ¬ ['$', '{'] <:+: path.toList) : packageName (p ++ "/" ++ path) = some p := by
  obtain ⟨hs, hpackage⟩ := packageName_iff_isPackageOf.mp h
  have htext : (p ++ "/" ++ path).toList = p.toList ++ '/' :: path.toList := by simp
  rw [packageName_iff_isPackageOf, htext]
  exact ⟨not_namesNoPackage_append (hpackage.not_namesNoPackage hs) hpath,
    hpackage.append_path hp path.toList⟩

end Names

/-- A specifier belongs to a package unless it is empty, a path, or put together when the program
runs. Its package is what stands before its first slash, or before the second one behind a scope;
it is its own package, and that of all paths below it. So the names that the finders report are
names of packages. -/
theorem packageName_projects :
    (∀ s : String, packageName s = none ↔ NamesNoPackage s.toList) ∧
    (∀ s p : String, packageName s = some p ↔
      ¬ NamesNoPackage s.toList ∧ IsPackageOf p.toList s.toList) ∧
    (∀ s p : String, packageName s = some p →
      packageName p = some p ∧
      ((p.toList.head? ≠ some '@' ∨ '/' ∈ p.toList) →
        ∀ path : String, ¬ ['$', '{'] <:+: path.toList →
          packageName (p ++ "/" ++ path) = some p)) ∧
    ∀ (lines : List Line) (file : String),
      (∀ dependencies,
        (∀ d ∈ findDeclarations lines file dependencies, packageName d.name = some d.name) ∧
        ∀ r ∈ findRequires lines file dependencies, packageName r.name = some r.name) ∧
      ∀ sets, ∀ r ∈ findMissing lines file sets, packageName r.name = some r.name := by
  refine ⟨fun _ => packageName_eq_none, fun _ _ => packageName_iff_isPackageOf, ?_, ?_⟩
  · intro s p h
    exact ⟨packageName_self h, fun hp path hpath => packageName_append_path h hp hpath⟩
  · refine fun lines file => ⟨fun dependencies => ⟨fun d hd => ?_, fun r hr => ?_⟩, ?_⟩
    · obtain ⟨_, -, _, -, hname, -⟩ := mem_findDeclarations.mp hd
      exact packageName_self hname
    · obtain ⟨_, -, _, -, hname, -⟩ := mem_findRequires.mp hr
      exact packageName_self hname
    · intro sets r hr
      obtain ⟨_, -, _, -, hname, -⟩ := mem_findMissing.mp hr
      exact packageName_self hname

/-- A path into a scoped package, and the records of a line that refers to it. -/
theorem packageName_projects_scoped :
    let line : Line := ⟨"const q = require('@scope/pkg/'); import '@scope/other/x'", 1⟩
    let dependencies : List Dependency := [⟨"@scope/pkg", "1.0.0", .production⟩]
    let declaration : Declaration :=
      ⟨"@scope/pkg", "q", "require('@scope/pkg/')", .require, "a.js", 1, 0, 32⟩
    let record : RequireRecord := ⟨"@scope/pkg", "require('@scope/pkg/')", "a.js", 1⟩
    let missing : MissingRecord := ⟨"@scope/other", "a.js", 1⟩
    packageName "@scope/pkg/" = some "@scope/pkg" ∧
      packageName "@scope/pkg" = some "@scope/pkg" ∧
      packageName ("@scope/pkg" ++ "/" ++ "a/b") = some "@scope/pkg" ∧
      (declaration ∈ findDeclarations [line] "a.js" dependencies ∧
        packageName declaration.name = some declaration.name) ∧
      (record ∈ findRequires [line] "a.js" dependencies ∧
        packageName record.name = some record.name) ∧
      (missing ∈ findMissing [line] "a.js" (.production dependencies) ∧
        packageName missing.name = some missing.name) := by
  intro line dependencies declaration record missing
  obtain ⟨-, -, hname, hfinders⟩ := packageName_projects
  obtain ⟨hfound, hmissing⟩ := hfinders [line] "a.js"
  obtain ⟨hdeclarations, hrequires⟩ := hfound dependencies
  have hp : packageName "@scope/pkg/" = some "@scope/pkg" := by decide
  have hd : declaration ∈ findDeclarations [line] "a.js" dependencies := by decide +kernel
  have hr : record ∈ findRequires [line] "a.js" dependencies := by decide +kernel
  have hm : missing ∈ findMissing [line] "a.js" (.production dependencies) := by decide +kernel
  obtain ⟨hself, hpaths⟩ := hname _ _ hp
  have hpath : packageName ("@scope/pkg" ++ "/" ++ "a/b") = some "@scope/pkg" :=
    hpaths (.inr (by decide)) "a/b" (by decide)
  exact ⟨hp, hself, hpath, ⟨hd, hdeclarations _ hd⟩, ⟨hr, hrequires _ hr⟩, hm, hmissing _ _ hm⟩

end ImportLedger
