import ImportLedger.Proofs.ManifestRoundTrip
import ImportLedger.Proofs.ScanSteps
import ImportLedger.Proofs.WrittenRecords
import Mathlib.Data.List.Permutation

/-! The dependency sets of a manifest that is an object. A key that comes again keeps its first
place and takes its last value, and a blank key in a field that is asked for is an error. -/

namespace ImportLedger

namespace Json

/-- The members of an object that is written, with every value that a key has; none where the value
is no object. -/
def Written.entries (n : Nat) : Written → List (String × Json)
  | .object members => (keepMembers n members).getD []
  | _ => []

theorem entries_of_take {n : Nat} {w : Written} {v : Json}
    (h : Slot.table.take (n + 1) w = some v) :
    v = .null ∧ w.entries n = [] ∨ v = .object (Members.ofEntries (w.entries n)) := by
  cases w with
  | scalar kept skipped =>
    cases kept with
    | error fault => cases h
    | ok u =>
      cases u <;> cases h
      exact .inl ⟨rfl, rfl⟩
  | string s => cases h
  | array items => cases h
  | object members =>
    obtain ⟨entries, hentries, rfl⟩ := Option.map_eq_some_iff.mp h
    exact .inr (by rw [Written.entries, hentries, Option.getD_some])

end Json

namespace Manifest

open Json

/-- The members of a field of the manifest; none where it is absent or null. -/
def entriesOf (key : String) (members : WrittenMembers) : List (String × Json) :=
  ((Fields.given? key members).map (Written.entries (depthBound - 2))).getD []

def hasBlankKey (entries : List (String × Json)) : Bool :=
  entries.any fun entry => entry.1.toList.all Text.isBlank

/-- The distinct keys in the order in which they come first, each with the last of its values. -/
def listed (kind : DependencyKind) (entries : List (String × Json)) : List Dependency :=
  (entries.map (·.1)).eraseDups.map fun name =>
    ⟨name, versionText (lastValue entries name), kind⟩

theorem declared_ofEntries (kind : DependencyKind) (entries : List (String × Json)) :
    declared kind (Members.ofEntries entries) =
      if hasBlankKey entries then .error (.blankName kind) else .ok (listed kind entries) := by
  have hblank : ((Members.ofEntries entries).any fun m => m.1.toList.all Text.isBlank) =
      hasBlankKey entries := by
    have hkeys (l : List (String × Json)) : (l.any fun m => m.1.toList.all Text.isBlank) =
        (l.map (·.1)).any fun key => key.toList.all Text.isBlank := by
      rw [List.any_map]
      rfl
    rw [hasBlankKey, hkeys, hkeys, map_fst_ofEntries, Bool.eq_iff_iff, List.any_eq_true,
      List.any_eq_true]
    simp only [List.mem_eraseDups]
  have hlisted : (Members.ofEntries entries).map (fun m => ⟨m.1, versionText m.2, kind⟩) =
      listed kind entries := by
    rw [ofEntries_eq, List.map_map]
    rfl
  rw [declared_eq, hblank, hlisted]

theorem table_of_admits {members : WrittenMembers} (h : fields.Admits members) {key : String}
    (hkey : fields.lookup key = some .table) :
    (tableField (fields.contents members) key).getD [] =
      Members.ofEntries (entriesOf key members) := by
  have hlookup := Fields.lookup_contents h.fits hkey
  rw [tableField, hlookup, entriesOf]
  cases hgiven : Fields.given? key members with
  | none => rfl
  | some w =>
    obtain ⟨v, hv⟩ := Fields.take_of_given? h.fits hkey hgiven
    rw [Option.bind_some, hv]
    rcases entries_of_take hv with ⟨rfl, hnone⟩ | rfl
    · have hentries : w.entries (depthBound - 2) = [] := hnone
      rw [Option.map_some, Option.getD_some, hentries]
      rfl
    · rfl

/-- Whether a list names each package once and none without a name. -/
def NamesApart (list : List Dependency) : Prop :=
  (list.map (·.name)).Nodup ∧ ∀ d ∈ list, d.name.toList.all Text.isBlank = false

theorem namesApart_of_declared {kind : DependencyKind} {members : Members}
    {list : List Dependency} (h : declared kind members = .ok list)
    (hkeys : (members.map (·.1)).Nodup) : NamesApart list := by
  refine ⟨map_name_of_declared h ▸ hkeys, fun d hd => ?_⟩
  rw [declared_eq] at h
  split at h
  · cases h
  · rename_i hblank
    cases h
    obtain ⟨m, hm, rfl⟩ := List.mem_map.mp hd
    simpa using List.any_eq_false.mp (Bool.eq_false_iff.mpr hblank) m hm

theorem namesApart_of_search {lines : List Line} {productionOnly : Bool} {sets : DependencySets}
    (h : search lines productionOnly = .ok sets) :
    NamesApart sets.productionList ∧ NamesApart (sets.devList?.getD []) := by
  cases hm : ofText (Line.join lines) with
  | error fault => simp [search, hm] at h
  | ok m =>
    have hkeys {table : Option Members}
        (htable : ∀ members, table = some members → m.dependencies = some members ∨
          m.devDependencies = some members) : ((table.getD []).map (·.1)).Nodup := by
      cases table with
      | none => exact .nil
      | some members =>
        cases kept_of_ofText hm (htable members rfl) with
        | object hkeys _ => exact hkeys
    rw [search, hm] at h
    obtain ⟨production, hproduction, h⟩ := ok_of_bind h
    have hfirst := namesApart_of_declared hproduction (hkeys fun _ => .inl)
    cases productionOnly with
    | true =>
      cases h
      exact ⟨hfirst, .nil, fun _ hd => absurd hd List.not_mem_nil⟩
    | false =>
      obtain ⟨development, hdevelopment, h⟩ := ok_of_bind h
      cases h
      exact ⟨hfirst, namesApart_of_declared hdevelopment (hkeys fun _ => .inr)⟩

variable {lines : List Line} {members : WrittenMembers}

theorem search_of_admits
    (h : Token.ofText (Line.join lines).toList = (Written.object members).tokens)
    (hadmits : fields.Admits members) :
    let production := entriesOf "dependencies" members
    let development := entriesOf "devDependencies" members
    (search lines false =
      if hasBlankKey production then .error (.blankName .production)
      else if hasBlankKey development then .error (.blankName .development)
      else .ok (.all (listed .production production) (listed .development development))) ∧
    search lines true =
      if hasBlankKey production then .error (.blankName .production)
      else .ok (.production (listed .production production)) := by
  intro production development
  have hread : readRecord fields (Line.join lines) = .ok (fields.contents members) :=
    (Fields.readRecord_written h).mpr ⟨hadmits, rfl⟩
  have hproduction : (tableField (fields.contents members) "dependencies").getD [] = _ :=
    table_of_admits hadmits rfl
  have hdevelopment : (tableField (fields.contents members) "devDependencies").getD [] = _ :=
    table_of_admits hadmits rfl
  constructor
  all_goals
    rw [search, ofText, hread]
    change (dependencySets _ _) = _
    simp only [dependencySets, hproduction, hdevelopment, declared_ofEntries]
  · cases hasBlankKey production <;> cases hasBlankKey development <;> rfl
  · cases hasBlankKey production <;> rfl

theorem search_of_not_admits
    (h : Token.ofText (Line.join lines).toList = (Written.object members).tokens)
    (hadmits : ¬fields.Admits members) :
    ∃ fault, ∀ productionOnly, search lines productionOnly = .error (.json fault) := by
  cases hread : readRecord fields (Line.join lines) with
  | ok read => exact absurd ((Fields.readRecord_written h).mp hread).1 hadmits
  | error fault =>
    refine ⟨fault, fun productionOnly => ?_⟩
    rw [search, ofText, hread]
    rfl

/-- Searching a manifest that is an object. Where its members cannot be read as those of a manifest
the search fails as on any other text, whether or not a key is blank. Otherwise a blank key among
the entries that are asked for is the only error, first of those for production, and each list has
the distinct keys in the order of the manifest, with their last values. -/
theorem search_of_object
    (h : Token.ofText (Line.join lines).toList = (Written.object members).tokens) :
    let production := entriesOf "dependencies" members
    let development := entriesOf "devDependencies" members
    (¬fields.Admits members →
      ∃ fault, ∀ productionOnly, search lines productionOnly = .error (.json fault)) ∧
    (fields.Admits members →
      (search lines false =
        if hasBlankKey production then .error (.blankName .production)
        else if hasBlankKey development then .error (.blankName .development)
        else .ok (.all (listed .production production) (listed .development development))) ∧
      (search lines true =
        if hasBlankKey production then .error (.blankName .production)
        else .ok (.production (listed .production production))) ∧
      ∀ error, search lines false = .error error → error.message =
        "Invalid package.json: empty dependency name in " ++
          (if hasBlankKey production then "prod" else "dev") ++ " dependencies") ∧
    ∀ productionOnly sets, search lines productionOnly = .ok sets →
      NamesApart sets.productionList ∧ NamesApart (sets.devList?.getD []) := by
  intro production development
  refine ⟨search_of_not_admits h, fun hadmits => ?_, fun _ _ => namesApart_of_search⟩
  obtain ⟨hall, honly⟩ := search_of_admits h hadmits
  refine ⟨hall, honly, fun error herror => ?_⟩
  rw [hall] at herror
  split at herror
  · rename_i hblank
    cases herror
    rw [if_pos hblank]
    rfl
  · rename_i hblank
    split at herror <;> cases herror
    rw [if_neg hblank]
    rfl

/-- A string without a fault. -/
def plain (s : String) : WrittenString := ⟨.ok s, .ok ()⟩

/-- A manifest with a key that comes twice, inside a version as well, and a blank key. -/
def roiInkObject : String :=
  "\x7b\"x\":[\x7b\x7d],\"dependencies\":\x7b\"roi\":\"1\"," ++
    "\"ink\":[\x7b\"a\":true,\"b\":[],\"a\":null\x7d],\"roi\":\"^3\"\x7d,\n" ++
    "\"devDependencies\":\x7b\"tape\":\"4\",\" \":\"1\"\x7d,\"version\":null\x7d"

def roiInkMembers : WrittenMembers := [
  (plain "x", .array [.object []]),
  (plain "dependencies", .object [
    (plain "roi", .string (plain "1")),
    (plain "ink", .array [.object [
      (plain "a", .scalar (.ok (.bool true)) (.ok ())),
      (plain "b", .array []),
      (plain "a", .scalar (.ok .null) (.ok ()))]]),
    (plain "roi", .string (plain "^3"))]),
  (plain "devDependencies", .object [
    (plain "tape", .string (plain "4")),
    (plain " ", .string (plain "1"))]),
  (plain "version", .scalar (.ok .null) (.ok ()))]

theorem search_of_object_roi_ink :
    Token.ofText (Line.join (Line.ofText roiInkObject)).toList =
      (Written.object roiInkMembers).tokens ∧
    fields.Admits roiInkMembers ∧
    search (Line.ofText roiInkObject) false = .error (.blankName .development) ∧
    search (Line.ofText roiInkObject) true = .ok (.production [
      ⟨"roi", "^3", .production⟩, ⟨"ink", "[\x7b\"a\":null,\"b\":[]\x7d]", .production⟩]) := by
  have htokens : Token.ofText (Line.join (Line.ofText roiInkObject)).toList =
      (Written.object roiInkMembers).tokens := by
    rw [Line.join_ofText]
    cbv
  have hfits : ∀ m ∈ roiInkMembers, fields.Fits m := by
    simp only [roiInkMembers, List.forall_mem_cons]
    exact ⟨⟨_, _, rfl, rfl⟩, ⟨_, _, rfl, rfl⟩, ⟨_, _, rfl, rfl⟩, ⟨_, _, rfl, rfl⟩, by simp⟩
  have hkeys : roiInkMembers.Pairwise fun m m' => m.1.kept ≠ m'.1.kept := by
    simp [roiInkMembers, plain]
  have hadmits : fields.Admits roiInkMembers := ⟨hfits, Fields.not_clash_of_keys hkeys⟩
  obtain ⟨hall, honly, -⟩ := (search_of_object htokens).2.1 hadmits
  refine ⟨htokens, hadmits, hall.trans ?_, honly.trans ?_⟩
  · decide +kernel
  · decide +kernel

/-- Whether an object with a blank key for production is refused before its keys are looked at. -/
def RefusedWithBlankKey (text : String) (members : WrittenMembers) : Prop :=
  Token.ofText text.toList = (Written.object members).tokens ∧
  (∃ w, Fields.given? "dependencies" members = some (.object [(plain "", w)])) ∧
  ∃ fault, ∀ productionOnly, search (Line.ofText text) productionOnly = .error (.json fault)

/-- The name is no string, it is given twice, or a version is half of a surrogate pair. -/
theorem search_of_refused_object :
    RefusedWithBlankKey "\x7b\"name\":[],\"dependencies\":\x7b\"\":null\x7d\x7d" [
      (plain "name", .array []),
      (plain "dependencies", .object [(plain "", .scalar (.ok .null) (.ok ()))])] ∧
    RefusedWithBlankKey "\x7b\"name\":null,\"name\":null,\"dependencies\":\x7b\"\":null\x7d\x7d" [
      (plain "name", .scalar (.ok .null) (.ok ())),
      (plain "name", .scalar (.ok .null) (.ok ())),
      (plain "dependencies", .object [(plain "", .scalar (.ok .null) (.ok ()))])] ∧
    RefusedWithBlankKey "\x7b\"dependencies\":\x7b\"\":\"\\ud800\"\x7d\x7d" [
      (plain "dependencies", .object [(plain "", .string ⟨.error .malformed, .ok ()⟩)])] := by
  refine ⟨?_, ?_, ?_⟩
  · exact ⟨by cbv, ⟨_, rfl⟩, .mismatched, by decide +kernel⟩
  · exact ⟨by cbv, ⟨_, rfl⟩, .mismatched, by decide +kernel⟩
  · exact ⟨by cbv, ⟨_, rfl⟩, .malformed, by decide +kernel⟩

end Manifest

end ImportLedger
