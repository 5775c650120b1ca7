import ImportLedger.Proofs.KeyedGroups
import ImportLedger.Toml.Value

/-! Tables that lines with keys make. A line looks at the entry of one name only and changes no
other, so that lines with different names do not get in each other's way. -/

namespace ImportLedger.Toml

/-- The name in a table that a key is about. -/
def Key.first (key : Key) : String := key.path.head?.getD key.last

/-- Gives a name a value, in its place or behind all others. -/
def Entries.put (entries : Entries) (name : String) (value : Toml) : Entries :=
  if (entries.lookup name).isNone then entries ++ [(name, value)] else entries.set name value

variable {entries kept others : Entries} {lines : List (Key × Toml)}

theorem lookup_set (entries : Entries) (name other : String) (value : Toml) :
    (entries.set name value).lookup other =
      if other = name then (entries.lookup name).map fun _ => value else entries.lookup other := by
  induction entries with
  | nil => simp [Entries.set]
  | cons e entries ih =>
    obtain ⟨k, v⟩ := e
    have hcons : Entries.set ((k, v) :: entries) name value =
        (k, if k = name then value else v) :: Entries.set entries name value := by
      by_cases hk : k = name <;> simp [hk, Entries.set]
    rw [hcons, lookup_cons_eq, lookup_cons_eq, lookup_cons_eq, ih]
    by_cases hk : k = name
    · subst hk
      by_cases ho : other = k <;> simp [ho]
    · by_cases ho : other = name
      · subst ho
        simp [Ne.symm hk]
      · simp [hk, ho]

theorem lookup_put (entries : Entries) (name other : String) (value : Toml) :
    (entries.put name value).lookup other =
      if other = name then some value else entries.lookup other := by
  rw [Entries.put]
  cases hold : entries.lookup name with
  | none =>
    rw [if_pos (by simp), List.lookup_append, lookup_cons_eq, List.lookup_nil]
    by_cases ho : other = name
    · simp [ho, hold]
    · simp [ho]
  | some old =>
    rw [if_neg (by simp), lookup_set, hold]
    rfl

/-- What a line makes of the entry of its name. -/
def Key.extend (key : Key) (value : Toml) (old : Option Toml) : Option Toml :=
  match key.path with
  | [] => if old.isNone then some value else none
  | _ :: path =>
    match old with
    | none => (Entries.addDotted true path key.last value []).map (table .dotted)
    | some (table .dotted inner) =>
      (Entries.addDotted true path key.last value inner).map (table .dotted)
    | some (table .implied inner) =>
      (Entries.addDotted false path key.last value inner).map (table .implied)
    | some (elements (last :: before)) =>
      (Entries.addDotted false path key.last value last).map fun last => elements (last :: before)
    | some _ => none

theorem addDotted_eq (key : Key) (value : Toml) (entries : Entries) :
    entries.addDotted true key.path key.last value =
      (key.extend value (entries.lookup key.first)).map (entries.put key.first) := by
  obtain ⟨path, last⟩ := key
  cases path with
  | nil =>
    rw [Entries.addDotted]
    cases hold : entries.lookup last with
    | none => simp [Key.extend, Key.first, Entries.put, hold]
    | some old => simp [Key.extend, Key.first, hold]
  | cons name path =>
    rw [Entries.addDotted, Key.extend]
    simp only [Key.first, List.head?_cons, Option.getD_some]
    split <;> simp [Entries.put, Function.comp_def, *]

section Parts

variable {p : String → Bool} {part part' : Entries} {line : Key × Toml}

/-- A line makes of a table what it makes of a part that has its name. -/
theorem add_of_agrees (hp : p line.1.first = true)
    (hagree : ∀ name, p name = true → entries.lookup name = part.lookup name)
    (h : part.addDotted true line.1.path line.1.last line.2 = some part') :
    ∃ entries', entries.addDotted true line.1.path line.1.last line.2 = some entries' ∧
      (∀ name, p name = true → entries'.lookup name = part'.lookup name) ∧
      ∀ name, p name = false → entries'.lookup name = entries.lookup name := by
  rw [addDotted_eq] at h
  obtain ⟨value, hvalue, rfl⟩ := Option.map_eq_some_iff.mp h
  refine ⟨entries.put line.1.first value, ?_, ?_, ?_⟩
  · rw [addDotted_eq, hagree _ hp, hvalue]
    rfl
  · intro name hname
    rw [lookup_put, lookup_put, hagree name hname]
  · intro name hname
    have hne : name ≠ line.1.first := by
      rintro rfl
      rw [hp] at hname
      cases hname
    rw [lookup_put, if_neg hne]

def addAll (lines : List (Key × Toml)) (entries : Entries) : Option Entries :=
  lines.foldlM (fun entries line => entries.addDotted true line.1.path line.1.last line.2) entries

theorem addAll_of_agrees {within within' beyond beyond' : Entries}
    (hwithin : ∀ name, p name = true → entries.lookup name = within.lookup name)
    (hbeyond : ∀ name, p name = false → entries.lookup name = beyond.lookup name)
    (hw : addAll (lines.filter (p ·.1.first)) within = some within')
    (hb : addAll (lines.filter (!p ·.1.first)) beyond = some beyond') :
    ∃ entries', addAll lines entries = some entries' ∧
      (∀ name, p name = true → entries'.lookup name = within'.lookup name) ∧
      ∀ name, p name = false → entries'.lookup name = beyond'.lookup name := by
  induction lines generalizing entries within beyond with
  | nil =>
    obtain rfl := Option.some.inj hw
    obtain rfl := Option.some.inj hb
    exact ⟨entries, rfl, hwithin, hbeyond⟩
  | cons line lines ih =>
    rw [addAll, List.foldlM_cons]
    -- The part that the line belongs to goes on with it, the other one agrees as before.
    cases hp : p line.1.first with
    | true =>
      rw [List.filter_cons_of_pos (by simpa using hp), addAll, List.foldlM_cons] at hw
      rw [List.filter_cons_of_neg (by simp [hp])] at hb
      obtain ⟨next, hnext, hw⟩ := Option.bind_eq_some_iff.mp hw
      obtain ⟨entries', he, hsame, hother⟩ := add_of_agrees hp hwithin hnext
      rw [he]
      exact ih hsame (fun name hname => (hother name hname).trans (hbeyond name hname)) hw hb
    | false =>
      rw [List.filter_cons_of_neg (by simp [hp])] at hw
      rw [List.filter_cons_of_pos (by simp [hp]), addAll, List.foldlM_cons] at hb
      obtain ⟨next, hnext, hb⟩ := Option.bind_eq_some_iff.mp hb
      have hflip {name : String} : (!p name) = true ↔ p name = false := by simp
      obtain ⟨entries', he, hsame, hother⟩ := add_of_agrees (p := (!p ·)) (hflip.mpr hp)
        (fun name hname => hbeyond name (hflip.mp hname)) hnext
      rw [he]
      refine ih ?_ (fun name hname => hsame name (hflip.mpr hname)) hw hb
      exact fun name hname => (hother name (by simpa using hname)).trans (hwithin name hname)

end Parts

theorem build_entries (lines : List (Key × Toml)) :
    build (lines.map fun line => .entry line.1 line.2) = buildInline lines := by
  have hfold (entries : Entries) :
      ((lines.map fun line => Statement.entry line.1 line.2).foldlM Draft.add ⟨entries, []⟩).map
        (·.entries) = addAll lines entries := by
    induction lines generalizing entries with
    | nil => rfl
    | cons line lines ih =>
      rw [List.map_cons, List.foldlM_cons, addAll, List.foldlM_cons, Draft.add, Entries.change]
      cases entries.addDotted true line.1.path line.1.last line.2 with
      | none => rfl
      | some next => exact ih next
  exact hfold []

/-- Lines may come in any order with lines for other names between them. -/
theorem buildInline_of_split (p : String → Bool) {within beyond : Entries}
    (hw : buildInline (lines.filter (p ·.1.first)) = some within)
    (hb : buildInline (lines.filter (!p ·.1.first)) = some beyond) :
    ∃ entries, buildInline lines = some entries ∧
      (∀ name, p name = true → entries.lookup name = within.lookup name) ∧
      ∀ name, p name = false → entries.lookup name = beyond.lookup name :=
  addAll_of_agrees (fun _ _ => rfl) (fun _ _ => rfl) hw hb

/-- A line that gives a plain name its value. -/
def plainLine (e : String × Toml) : Key × Toml := (⟨[], e.1⟩, e.2)

theorem buildInline_of_nodup (h : (entries.map (·.1)).Nodup) :
    buildInline (entries.map plainLine) = some entries := by
  induction entries using List.reverseRecOn with
  | nil => rfl
  | append_singleton entries e ih =>
    rw [List.map_append, List.nodup_append] at h
    have hfresh : entries.lookup e.1 = none :=
      List.lookup_eq_none_iff.mpr fun e' he' => bne_iff_ne.mpr fun heq =>
        h.2.2 _ (List.mem_map_of_mem he') _ (by simp) heq.symm
    have hlines := ih h.1
    rw [buildInline] at hlines ⊢
    rw [List.map_append, List.foldlM_append, hlines]
    simp [plainLine, Entries.addDotted, hfresh]

theorem buildInline_of_perm (hnodup : (entries.map (·.1)).Nodup)
    (h : lines.Perm (entries.map plainLine)) :
    ∃ entries', buildInline lines = some entries' ∧ entries'.Perm entries := by
  have hplain : (lines.map fun line => (line.1.last, line.2)).map plainLine = lines := by
    rw [List.map_map]
    refine (List.map_congr_left fun line hline => ?_).trans (List.map_id _)
    obtain ⟨e, -, rfl⟩ := List.mem_map.mp (h.mem_iff.mp hline)
    rfl
  have hback : (entries.map plainLine).map (fun line => (line.1.last, line.2)) = entries := by
    rw [List.map_map]
    exact List.map_id entries
  have hperm := h.map fun line => (line.1.last, line.2)
  rw [hback] at hperm
  have hbuild := buildInline_of_nodup ((hperm.map (·.1)).nodup_iff.mpr hnodup)
  rw [hplain] at hbuild
  exact ⟨_, hbuild, hperm⟩

end ImportLedger.Toml
