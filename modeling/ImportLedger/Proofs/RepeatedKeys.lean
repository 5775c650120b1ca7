import ImportLedger.Proofs.JsonKept
import ImportLedger.Proofs.KeyedGroups
import ImportLedger.Proofs.WrittenJson
import Mathlib.Data.List.Induction

/-! Objects in which a key may come again. It keeps its first place and takes its last value. -/

namespace ImportLedger.Json

theorem lookup_put (members : Members) (key key' : String) (v : Json) :
    (members.put key v).lookup key' = if key' = key then some v else members.lookup key' := by
  induction members with
  | nil => exact lookup_cons_eq (key, v) [] key'
  | cons m members ih =>
    obtain ⟨k, w⟩ := m
    by_cases hk : k = key
    · subst hk
      rw [Members.put, if_pos rfl, lookup_cons_eq, lookup_cons_eq]
      by_cases h : key' = k <;> simp only [h, if_true, if_false]
    · rw [Members.put, if_neg hk, lookup_cons_eq, lookup_cons_eq, ih]
      by_cases h : key' = k
      · have hne : key' ≠ key := h ▸ hk
        simp only [if_pos h, if_neg hne]
      · simp only [if_neg h]

variable (entries : List (String × Json))

theorem ofEntries_concat (entry : String × Json) :
    Members.ofEntries (entries ++ [entry]) = (Members.ofEntries entries).put entry.1 entry.2 := by
  simp [Members.ofEntries]

theorem put_of_not_mem {members : Members} {key : String} (h : key ∉ members.map (·.1))
    (v : Json) : members.put key v = members ++ [(key, v)] := by
  induction members with
  | nil => rfl
  | cons m members ih =>
    obtain ⟨k, w⟩ := m
    simp only [List.map_cons, List.mem_cons, not_or] at h
    rw [Members.put, if_neg (Ne.symm h.1), ih h.2, List.cons_append]

theorem ofEntries_of_nodup {members : Members} (h : (members.map (·.1)).Nodup) :
    Members.ofEntries members = members := by
  induction members using List.reverseRecOn with
  | nil => rfl
  | append_singleton members m ih =>
    rw [List.map_append, List.nodup_append] at h
    have hfresh : m.1 ∉ members.map (·.1) := fun hm => h.2.2 m.1 hm m.1 (by simp) rfl
    rw [ofEntries_concat, ih h.1, put_of_not_mem hfresh]

/-- The value that comes last under a key. -/
def lastValue (key : String) : Json := (entries.reverse.lookup key).getD .null

theorem map_fst_ofEntries :
    (Members.ofEntries entries).map (·.1) = (entries.map (·.1)).eraseDups := by
  induction entries using List.reverseRecOn with
  | nil => rfl
  | append_singleton entries entry ih =>
    rw [ofEntries_concat, Members.map_fst_put, ih, List.map_append, List.map_singleton,
      eraseDups_concat]
    simp only [List.mem_eraseDups]

theorem nodup_ofEntries : ((Members.ofEntries entries).map (·.1)).Nodup := by
  induction entries using List.reverseRecOn with
  | nil => exact .nil
  | append_singleton entries entry ih =>
    rw [ofEntries_concat]
    exact put_nodup ih _ _

theorem lookup_ofEntries (key : String) :
    (Members.ofEntries entries).lookup key = entries.reverse.lookup key := by
  induction entries using List.reverseRecOn with
  | nil => rfl
  | append_singleton entries entry ih =>
    rw [ofEntries_concat, lookup_put, ih, List.reverse_concat, lookup_cons_eq]

theorem eq_map_lookup {members : Members} (h : (members.map (·.1)).Nodup) :
    members = (members.map (·.1)).map fun key => (key, (members.lookup key).getD .null) := by
  have hlookup : ∀ m ∈ members, members.lookup m.1 = some m.2 := fun m hm =>
    (lookup_eq_some_iff_mem h).mpr hm
  rw [List.map_map]
  conv_lhs => rw [← List.map_id members]
  refine List.map_congr_left fun m hm => ?_
  simp [hlookup m hm]

theorem ofEntries_eq :
    Members.ofEntries entries = (entries.map (·.1)).eraseDups.map fun key =>
      (key, lastValue entries key) := by
  rw [eq_map_lookup (nodup_ofEntries entries), map_fst_ofEntries]
  simp only [lookup_ofEntries, lastValue]

end ImportLedger.Json
