import Mathlib.Data.List.Induction
import Mathlib.Data.List.Perm.Basic

/-! Lists with keys. Where no key comes twice the order of entries does not matter. Groups of one
key each keep what belongs to them apart, and together they are the list in another order. -/

namespace ImportLedger

section Lookups

variable {α κ : Type} [BEq κ] [LawfulBEq κ] {entries entries' : List (κ × α)}

theorem lookup_cons_eq [DecidableEq κ] (entry : κ × α) (entries : List (κ × α)) (k : κ) :
    List.lookup k (entry :: entries) = if k = entry.1 then some entry.2 else entries.lookup k := by
  rw [List.lookup_cons]
  by_cases h : k = entry.1
  · simp [h]
  · simp [h, beq_eq_false_iff_ne.mpr h]

theorem lookup_eq_some_iff_mem (h : (entries.map (·.1)).Nodup) {k : κ} {a : α} :
    entries.lookup k = some a ↔ (k, a) ∈ entries := by
  rw [List.lookup_eq_some_iff]
  constructor
  · rintro ⟨before, after, rfl, -⟩
    simp
  · intro hm
    obtain ⟨before, after, rfl⟩ := List.append_of_mem hm
    refine ⟨before, after, rfl, fun e he => bne_iff_ne.mpr fun hne => ?_⟩
    rw [List.map_append, List.map_cons, List.nodup_append] at h
    exact h.2.2 _ (List.mem_map_of_mem he) _ List.mem_cons_self hne.symm

theorem lookup_perm (h : (entries.map (·.1)).Nodup) (hp : entries.Perm entries') (k : κ) :
    entries.lookup k = entries'.lookup k := by
  have h' := (hp.map (·.1)).nodup_iff.mp h
  refine Option.ext fun a => ?_
  rw [lookup_eq_some_iff_mem h, lookup_eq_some_iff_mem h', hp.mem_iff]

end Lookups

variable {α β κ : Type} [DecidableEq κ] {key : α → κ}

theorem eraseDups_concat (keys : List κ) (k : κ) :
    (keys ++ [k]).eraseDups = if k ∈ keys then keys.eraseDups else keys.eraseDups ++ [k] := by
  rw [List.eraseDups_append]
  by_cases h : k ∈ keys <;> simp [List.removeAll, h, List.eraseDups_cons]

/-- Keys stay in the order in which they come first. -/
theorem pairwise_idxOf_eraseDups (keys : List κ) :
    keys.eraseDups.Pairwise fun a b => keys.idxOf a < keys.idxOf b := by
  induction keys using List.reverseRecOn with
  | nil => exact .nil
  | append_singleton keys k ih =>
    have hsame {a : κ} (ha : a ∈ keys.eraseDups) : (keys ++ [k]).idxOf a = keys.idxOf a :=
      List.idxOf_append_of_mem (List.mem_eraseDups.mp ha)
    have hkept : keys.eraseDups.Pairwise fun a b => (keys ++ [k]).idxOf a < (keys ++ [k]).idxOf b := by
      refine ih.imp_of_mem fun {a b} ha hb hab => ?_
      rw [hsame ha, hsame hb]
      exact hab
    rw [eraseDups_concat]
    split
    · exact hkept
    · rename_i hk
      refine List.pairwise_append.mpr ⟨hkept, List.pairwise_singleton _ k, ?_⟩
      intro a ha b hb
      obtain rfl := List.mem_singleton.mp hb
      rw [hsame ha, List.idxOf_append_of_notMem hk]
      have hlt := List.idxOf_lt_length_of_mem (List.mem_eraseDups.mp ha)
      omega

theorem nodup_eraseDups (keys : List κ) : keys.eraseDups.Nodup := by
  refine (pairwise_idxOf_eraseDups keys).imp ?_
  rintro a b hab rfl
  exact Nat.lt_irrefl _ hab

theorem filter_flatMap_of_key {part : β → List α} {label : β → κ} {groups : List β}
    (hown : ∀ g, ∀ a ∈ part g, key a = label g) (hd : (groups.map label).Nodup) {g : β}
    (hg : g ∈ groups) : (groups.flatMap part).filter (key · == label g) = part g := by
  have hself (g : β) : (part g).filter (key · == label g) = part g :=
    List.filter_eq_self.mpr fun a ha => by simp [hown g a ha]
  have hother {f g : β} (h : label f ≠ label g) : (part f).filter (key · == label g) = [] :=
    List.filter_eq_nil_iff.mpr fun a ha => by simp [hown f a ha, h]
  induction groups with
  | nil => simp at hg
  | cons first rest ih =>
    obtain ⟨hfresh, hd'⟩ := List.nodup_cons.mp (List.map_cons ▸ hd)
    rw [List.flatMap_cons, List.filter_append]
    rcases List.mem_cons.mp hg with rfl | hg
    · have hrest : (rest.flatMap part).filter (key · == label g) = [] := by
        rw [List.filter_flatMap, List.flatMap_eq_nil_iff]
        intro f hf
        exact hother fun he => hfresh (he ▸ List.mem_map_of_mem hf)
      rw [hself, hrest, List.append_nil]
    · have hne : label first ≠ label g := fun he => hfresh (he ▸ List.mem_map_of_mem hg)
      rw [hother hne, List.nil_append, ih hd' hg]

theorem flatMap_filter_perm {keys : List κ} (hd : keys.Nodup) {l : List α}
    (h : ∀ a ∈ l, key a ∈ keys) : (keys.flatMap fun k => l.filter (key · == k)).Perm l := by
  induction keys generalizing l with
  | nil =>
    have hl : l = [] := List.eq_nil_iff_forall_not_mem.mpr fun a ha => List.not_mem_nil (h a ha)
    rw [hl]
    exact .refl _
  | cons k keys ih =>
    obtain ⟨hfresh, hd'⟩ := List.nodup_cons.mp hd
    -- The later groups take nothing from the first one.
    have hlater : (keys.flatMap fun k' => l.filter (key · == k')) =
        keys.flatMap fun k' => (l.filter fun a => !(key a == k)).filter (key · == k') := by
      refine List.flatMap_congr fun k' hk' => ?_
      rw [List.filter_filter]
      refine List.filter_congr fun a _ => ?_
      have hne : k' ≠ k := fun he => hfresh (he ▸ hk')
      by_cases ha : key a = k' <;> simp [ha, hne]
    have hrest : ∀ a ∈ l.filter (fun a => !(key a == k)), key a ∈ keys := by
      intro a ha
      obtain ⟨ha, hne⟩ := List.mem_filter.mp ha
      exact (List.mem_cons.mp (h a ha)).resolve_left (by simpa using hne)
    rw [List.flatMap_cons, hlater]
    exact ((ih hd' hrest).append_left _).trans (List.filter_append_perm _ l)

end ImportLedger
