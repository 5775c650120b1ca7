import ImportLedger.Manifest
import ImportLedger.Proofs.JoinedLines
import ImportLedger.Proofs.JsonReading

/-! A manifest that is written out and read again. -/

namespace ImportLedger

namespace Manifest

variable {text : String} {m : Manifest}

theorem kept_of_ofText (h : ofText text = .ok m) {members : Json.Members}
    (hm : m.dependencies = some members ∨ m.devDependencies = some members) :
    Json.Kept (Json.room []) (.object members) := by
  obtain ⟨read, hread, hfields⟩ := ok_of_bind h
  obtain rfl := Except.ok.inj hfields
  have htable {key : String} (hk : tableField read key = some members) :
      Json.Kept (Json.room []) (.object members) := by
    unfold tableField at hk
    split at hk
    · rename_i found hlookup
      obtain rfl := Option.some.inj hk
      obtain ⟨before, after, rfl, -⟩ := List.lookup_eq_some_iff.mp hlookup
      exact Json.readRecord_kept hread (key, _) (by simp)
    · cases hk
  exact hm.elim htable htable

theorem fits_text (name : Option String) : Json.Slot.text.Fits ((name.map Json.string).getD .null) := by
  cases name with
  | none => exact ⟨.inl rfl, .null, rfl⟩
  | some s => exact ⟨.inr ⟨s, rfl⟩, .string s, rfl⟩

theorem fits_table {table : Option Json.Members}
    (hkept : ∀ members, table = some members → Json.Kept (Json.room []) (.object members))
    (hexact : ∀ d ∈ table.getD [], d.2.isExact = true) :
    Json.Slot.table.Fits ((table.map Json.object).getD .null) := by
  cases table with
  | none => exact ⟨.inl rfl, .null, rfl⟩
  | some members =>
    exact ⟨.inr ⟨members, rfl⟩, hkept members rfl, Json.isExact_object.mpr hexact⟩

theorem ofText_toJson_compact
    (hkept : ∀ members, m.dependencies = some members ∨ m.devDependencies = some members →
      Json.Kept (Json.room []) (.object members))
    (hexact : ∀ d ∈ m.dependencies.getD [] ++ m.devDependencies.getD [], d.2.isExact = true) :
    ofText m.toJson.compact = .ok m := by
  have hdependencies := fits_table (fun members h => hkept members (.inl h)) fun d hd =>
    hexact d (List.mem_append_left _ hd)
  have hdev := fits_table (fun members h => hkept members (.inr h)) fun d hd =>
    hexact d (List.mem_append_right _ hd)
  have hread : Json.readRecord fields m.toJson.compact = .ok [
      ("name", (m.name.map Json.string).getD .null),
      ("version", (m.version.map Json.string).getD .null),
      ("dependencies", (m.dependencies.map Json.object).getD .null),
      ("devDependencies", (m.devDependencies.map Json.object).getD .null)] := by
    have hkeys : ["name", "version", "dependencies", "devDependencies"].Nodup := by decide
    refine Json.readRecord_compact hkeys fun member hmember => ?_
    simp only [List.mem_cons, List.not_mem_nil, or_false] at hmember
    rcases hmember with rfl | rfl | rfl | rfl
    · exact ⟨.text, rfl, fits_text m.name⟩
    · exact ⟨.text, rfl, fits_text m.version⟩
    · exact ⟨.table, rfl, hdependencies⟩
    · exact ⟨.table, rfl, hdev⟩
  rw [ofText, hread]
  obtain ⟨name, version, dependencies, devDependencies⟩ := m
  have htext (key : String) (read : Json.Members) (value : Option String)
      (h : read.lookup key = some ((value.map Json.string).getD .null)) :
      textField read key = value := by
    cases value <;> simp [textField, h]
  have htable (key : String) (read : Json.Members) (value : Option Json.Members)
      (h : read.lookup key = some ((value.map Json.object).getD .null)) :
      tableField read key = value := by
    cases value <;> simp [tableField, h]
  refine congrArg Except.ok ?_
  rw [htext "name" _ name rfl, htext "version" _ version rfl,
    htable "dependencies" _ dependencies rfl, htable "devDependencies" _ devDependencies rfl]

/-- A manifest whose numbers are all exact is the same after it has been written out without
blanks and read again, and declares the same dependencies. -/
theorem compact_round_trip (h : ofText text = .ok m)
    (hexact : ∀ d ∈ m.dependencies.getD [] ++ m.devDependencies.getD [], d.2.isExact = true) :
    ofText m.toJson.compact = .ok m ∧
      (∀ again, ofText m.toJson.compact = .ok again → again.toJson.compact = m.toJson.compact) ∧
      ∀ productionOnly, search (Line.ofText m.toJson.compact) productionOnly =
        search (Line.ofText text) productionOnly := by
  have hread : ofText m.toJson.compact = .ok m :=
    ofText_toJson_compact (fun _ hm => kept_of_ofText h hm) hexact
  refine ⟨hread, fun again hagain => ?_, fun productionOnly => ?_⟩
  · rw [hread] at hagain
    rw [Except.ok.inj hagain]
  · simp only [search, Line.join_ofText, hread, h]

/-- A manifest as a row, with a key that comes twice and an escape. -/
def roiInkRow : String :=
  "[\"app\", null, \x7b\"roi\": 1, \"ink\": [-2, \x7b\"\\u000a\": true\x7d], \"roi\": \"^3\"\x7d, null]"

theorem compact_round_trip_roi_ink :
    ∃ m, ofText roiInkRow = .ok m ∧
      m.toJson.compact = "\x7b\"name\":\"app\",\"version\":null,\"dependencies\":\x7b\"roi\":" ++
        "\"^3\",\"ink\":[-2,\x7b\"\\n\":true\x7d]\x7d,\"devDependencies\":null\x7d" ∧
      ofText m.toJson.compact = .ok m := by
  have hread : ((ofText roiInkRow).toOption.map fun m => (m.toJson.compact,
      (m.dependencies.getD [] ++ m.devDependencies.getD []).all (·.2.isExact))) =
      some ("\x7b\"name\":\"app\",\"version\":null,\"dependencies\":\x7b\"roi\":" ++
        "\"^3\",\"ink\":[-2,\x7b\"\\n\":true\x7d]\x7d,\"devDependencies\":null\x7d", true) := by
    decide +kernel
  obtain ⟨m, hm, hpair⟩ := Option.map_eq_some_iff.mp hread
  have h : ofText roiInkRow = .ok m := ok_of_toOption hm
  obtain ⟨hcompact, hall⟩ := Prod.mk.inj hpair
  exact ⟨m, h, hcompact, (compact_round_trip h (List.all_eq_true.mp hall)).1⟩

end Manifest

end ImportLedger
