import ImportLedger.Proofs.ArgumentActions

/-! One more switch among the arguments. All other arguments mean what they mean without it. -/

namespace ImportLedger.CommandLine

/-- Options with a switch turned on. -/
def Switch.add (switch : Switch) (options : Options) : Options :=
  match switch with
  | dev => { options with dev := true }
  | file => { options with file := true }
  | summary => { options with summary := true }
  | ci => { options with ci := true }
  | help | version => options

variable {s : Switch} {options after : Options} {waiting : Option Setting}

theorem Switch.set_ok {switch : Switch} (h : switch.set options = .ok after) :
    after = switch.add options := by
  cases switch with
  | help | version => cases h
  | dev | file | summary | ci =>
    rw [set] at h
    split at h
    · cases h
    · exact (Except.ok.inj h).symm

theorem Switch.set_add {switch : Switch} (h : switch.set (s.add options) = .ok after) :
    ∃ before, switch.set options = .ok before ∧ after = s.add before := by
  cases switch with
  | help | version => cases h
  | dev | file | summary | ci =>
    -- No switch turns another one off, and a switch that is on is not given again.
    rw [set] at h ⊢
    split at h
    · cases h
    · rename_i hoff
      obtain rfl := Except.ok.inj h
      cases s <;> exact ⟨_, if_neg (by simp_all [add]), rfl⟩

theorem Switch.add_fields (s : Switch) (options : Options) :
    (s.add options).path = options.path ∧ (s.add options).configFile = options.configFile ∧
      (s.add options).excluded = options.excluded ∧ (s.add options).format = options.format ∧
      (s.add options).color = options.color := by
  cases s <;> exact ⟨rfl, rfl, rfl, rfl, rfl⟩

theorem Setting.set_add (setting : Setting) (value : String) (s : Switch) (options : Options) :
    setting.set value (s.add options) = (setting.set value options).map s.add := by
  obtain ⟨-, hconfig, hexcluded, hformat, hcolor⟩ := s.add_fields options
  cases setting with
  | config =>
    rw [set, set, hconfig]
    split
    · rfl
    · cases s <;> rfl
  | exclude =>
    rw [set, set, hexcluded]
    cases s <;> rfl
  | format =>
    rw [set, set, hformat]
    split
    · cases s <;> rfl
    · rfl
  | color =>
    rw [set, set, hcolor]
    split
    · cases s <;> rfl
    · rfl

namespace Options

theorem setPath_add (options : Options) (s : Switch) (path : String) :
    (s.add options).setPath path = (options.setPath path).map s.add := by
  rw [setPath, setPath, (s.add_fields options).1]
  split
  · rfl
  · cases s <;> rfl

theorem apply_add {a : Action} (h : a.apply (s.add options) = .ok after) :
    ∃ before, a.apply options = .ok before ∧ after = s.add before := by
  cases a with
  | turnOn switch => exact Switch.set_add h
  | give setting value =>
    rw [Action.apply, Setting.set_add] at h
    obtain ⟨before, hb, he⟩ := ok_of_map h
    exact ⟨before, hb, he.symm⟩
  | enter path =>
    rw [Action.apply, setPath_add] at h
    obtain ⟨before, hb, he⟩ := ok_of_map h
    exact ⟨before, hb, he.symm⟩
  | refuse => cases h

theorem act_add {actions : List Action} (h : (s.add options).act actions = .ok after) :
    ∃ before, options.act actions = .ok before ∧ after = s.add before := by
  induction actions generalizing options with
  | nil => exact ⟨options, rfl, (Except.ok.inj h).symm⟩
  | cons a actions ih =>
    rw [act_cons] at h ⊢
    obtain ⟨next, hn, h⟩ := ok_of_bind h
    obtain ⟨between, hb, rfl⟩ := apply_add hn
    rw [hb]
    exact ih h

/-- There is one path at most. -/
theorem foldlM_setPath_ok {rest : List String} (h : rest.foldlM setPath options = .ok after) :
    (rest = [] ∧ after = options) ∨
      ∃ path, rest = [path] ∧ options.path = none ∧ after = { options with path := some path } := by
  have hset {options next : Options} {path : String} (h : options.setPath path = .ok next) :
      options.path = none ∧ next = { options with path := some path } := by
    rw [setPath] at h
    split at h
    · cases h
    · simp_all
  cases rest with
  | nil => exact .inl ⟨rfl, (Except.ok.inj h).symm⟩
  | cons path rest =>
    rw [List.foldlM_cons] at h
    obtain ⟨next, hn, h⟩ := ok_of_bind h
    obtain ⟨hpath, rfl⟩ := hset hn
    cases rest with
    | nil => exact .inr ⟨path, rfl, hpath, (Except.ok.inj h).symm⟩
    | cons second rest =>
      rw [List.foldlM_cons] at h
      obtain ⟨_, hn, -⟩ := ok_of_bind h
      cases (hset hn).1

theorem ofLong_switch {name : String} (hname : Switch.ofLong? name = some s) :
    Asked.ofLong name.toList = ([.turnOn s], none) := by
  have hvalue : name.toList.takeWhile (· != '=') = name.toList ∧
      name.toList.dropWhile (· != '=') = [] := by
    unfold Switch.ofLong? at hname
    split at hname
    · decide
    · decide
    · decide
    · decide
    · decide
    · decide
    · cases hname
  rw [Asked.ofLong, hvalue.1, hvalue.2, String.ofList_toList, hname]

/-- One more switch is turned on where arguments are read as options, and is a path behind the
mark that ends them. -/
theorem take_insert {name : String} (hname : Switch.ofLong? name = some s) {xs ys : List String}
    (h : options.take waiting (xs ++ ("--" ++ name) :: ys) = .ok after) :
    ∃ before, options.take waiting (xs ++ ys) = .ok before ∧
      (after = s.add before ∨
        before.path = none ∧ after = { before with path := some ("--" ++ name) }) := by
  rw [take_eq] at h
  rw [take_eq]
  induction xs generalizing options waiting with
  | nil =>
    have hmark : "--" ++ name ≠ "--" := by
      intro he
      have hempty : name = "" := by simpa using congrArg String.toList he
      rw [hempty] at hname
      cases hname
    have htext : ("--" ++ name).toList = '-' :: '-' :: name.toList := by simp
    rw [List.nil_append, actions, if_neg fun hends => hmark hends.2, act_append] at h
    obtain ⟨next, hn, h⟩ := ok_of_bind h
    cases waiting with
    | some setting =>
      rw [Asked.ofArgument.eq_1 _ _ _ _ htext] at hn
      cases hn
    | none =>
      rw [Asked.ofArgument.eq_3 _ _ htext, ofLong_switch hname] at hn h
      rw [act_singleton] at hn
      obtain rfl := Switch.set_ok hn
      obtain ⟨before, hb, rfl⟩ := act_add h
      exact ⟨before, hb, .inl rfl⟩
  | cons argument xs ih =>
    rw [List.cons_append, actions] at h ⊢
    by_cases hends : EndsOptions waiting argument
    · rw [if_pos hends, ← foldlM_setPath] at h ⊢
      rcases foldlM_setPath_ok h with ⟨he, -⟩ | ⟨path, he, hpath, rfl⟩
      · simp at he
      · obtain ⟨rfl, he⟩ := (List.append_eq_singleton_iff.mp he).resolve_right (by simp)
        obtain ⟨rfl, rfl⟩ := List.cons.inj he
        exact ⟨options, rfl, .inr ⟨hpath, rfl⟩⟩
    · rw [if_neg hends, act_append] at h ⊢
      obtain ⟨next, hn, h⟩ := ok_of_bind h
      rw [hn]
      exact ih h

end Options

end ImportLedger.CommandLine
