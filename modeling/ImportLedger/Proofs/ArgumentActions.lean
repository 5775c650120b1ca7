import ImportLedger.CommandLine.Arguments
import ImportLedger.Proofs.Outcomes

/-! Arguments as actions on the options. What an argument asks for depends on those before it only
through the setting that waits for its value; the options change action by action. -/

namespace ImportLedger.CommandLine

/-- What an argument asks for, or a letter of it. -/
inductive Action
  | turnOn (switch : Switch)
  | give (setting : Setting) (value : String)
  | enter (path : String)
  | refuse

def Action.apply (options : Options) : Action → Except Refusal Options
  | turnOn switch => switch.set options
  | give setting value => setting.set value options
  | enter path => options.setPath path
  | refuse => .error .invalid

/-- Actions, and the setting that waits for a value behind them. -/
abbrev Asked := List Action × Option Setting

def Asked.ofShort : List Char → Asked
  | [] => ([], none)
  | c :: rest =>
    match Switch.ofShort? c, Setting.ofShort? c with
    | some switch, _ => (.turnOn switch :: (ofShort rest).1, (ofShort rest).2)
    | none, none => ([.refuse], none)
    | none, some setting =>
      match rest with
      | [] => ([], some setting)
      | '=' :: value | value => ([.give setting (String.ofList value)], none)

def Asked.ofLong (text : List Char) : Asked :=
  let name := String.ofList (text.takeWhile (· != '='))
  match Switch.ofLong? name, Setting.ofLong? name, text.dropWhile (· != '=') with
  | some switch, _, [] => ([.turnOn switch], none)
  | none, some setting, [] => ([], some setting)
  | none, some setting, _ :: value => ([.give setting (String.ofList value)], none)
  | _, _, _ => ([.refuse], none)

/-- What an argument asks for that does not end the options. -/
def Asked.ofArgument (waiting : Option Setting) (argument : String) : Asked :=
  match waiting, argument.toList with
  | some _, '-' :: _ :: _ => ([.refuse], none)
  | some setting, _ => ([.give setting argument], none)
  | none, '-' :: '-' :: text => ofLong text
  | none, '-' :: c :: text => ofShort (c :: text)
  | none, _ => ([.enter argument], none)

/-- Whether an argument is the two dashes that end the options. -/
def EndsOptions (waiting : Option Setting) (argument : String) : Prop :=
  waiting = none ∧ argument = "--"

instance (waiting : Option Setting) (argument : String) :
    Decidable (EndsOptions waiting argument) :=
  inferInstanceAs (Decidable (_ ∧ _))

/-- What arguments ask for. -/
def actions (waiting : Option Setting) : List String → List Action
  | [] => if waiting.isSome then [.refuse] else []
  | argument :: rest =>
    if EndsOptions waiting argument then rest.map .enter
    else
      (Asked.ofArgument waiting argument).1 ++ actions (Asked.ofArgument waiting argument).2 rest

namespace Options

def act (actions : List Action) (options : Options) : Except Refusal Options :=
  actions.foldlM Action.apply options

theorem act_cons (a : Action) (as : List Action) (options : Options) :
    options.act (a :: as) = a.apply options >>= act as :=
  List.foldlM_cons

theorem act_append (as bs : List Action) (options : Options) :
    options.act (as ++ bs) = options.act as >>= act bs :=
  List.foldlM_append

theorem act_singleton (a : Action) (options : Options) : options.act [a] = a.apply options := by
  rw [act_cons]
  cases a.apply options <;> rfl

theorem foldlM_setPath (paths : List String) (options : Options) :
    paths.foldlM setPath options = options.act (paths.map .enter) := by
  simp only [act, List.foldlM_map, Action.apply]

/-- The options that actions lead to, with the setting that waits. -/
def actThen (asked : Asked) (options : Options) : Except Refusal (Options × Option Setting) :=
  (options.act asked.1).map fun next => (next, asked.2)

theorem actThen_singleton (a : Action) (waiting : Option Setting) (options : Options) :
    options.actThen ([a], waiting) = a.apply options >>= fun next => pure (next, waiting) := by
  rw [actThen, act_singleton]
  cases a.apply options <;> rfl

theorem takeShort_eq (text : List Char) (options : Options) :
    options.takeShort text = options.actThen (.ofShort text) := by
  induction text generalizing options with
  | nil => rfl
  | cons c rest ih =>
    rw [takeShort, Asked.ofShort]
    cases hswitch : Switch.ofShort? c with
    | some switch =>
      simp only [ih]
      rw [actThen, act_cons, Action.apply]
      cases switch.set options <;> rfl
    | none =>
      cases hsetting : Setting.ofShort? c with
      | none => rfl
      | some setting =>
        cases rest with
        | nil => rfl
        | cons d value =>
          by_cases hd : d = '='
          · subst hd
            exact (actThen_singleton (.give setting _) none options).symm
          · simp only [List.cons.injEq, hd, false_and, imp_false, not_false_eq_true, implies_true]
            exact (actThen_singleton (.give setting _) none options).symm

theorem takeLong_eq (text : List Char) (options : Options) :
    options.takeLong text = options.actThen (.ofLong text) := by
  rw [takeLong, Asked.ofLong]
  cases Switch.ofLong? (String.ofList (text.takeWhile (· != '='))) with
  | some switch =>
    cases text.dropWhile (· != '=') with
    | nil => exact (actThen_singleton (.turnOn switch) none options).symm
    | cons d value => rfl
  | none =>
    cases Setting.ofLong? (String.ofList (text.takeWhile (· != '='))) with
    | none => rfl
    | some setting =>
      cases text.dropWhile (· != '=') with
      | nil => rfl
      | cons d value => exact (actThen_singleton (.give setting _) none options).symm

/-- Arguments are read action by action. -/
theorem take_eq (arguments : List String) (waiting : Option Setting) (options : Options) :
    options.take waiting arguments = options.act (actions waiting arguments) := by
  induction arguments generalizing options waiting with
  | nil =>
    rw [take, actions]
    cases waiting <;> rfl
  | cons argument rest ih =>
    rw [actions]
    by_cases hends : EndsOptions waiting argument
    · obtain ⟨rfl, rfl⟩ := hends
      rw [if_pos ⟨rfl, rfl⟩, ← foldlM_setPath]
      rfl
    · have hdashes : waiting = none → argument.toList ≠ ['-', '-'] := by
        intro hw htext
        exact hends ⟨hw, String.toList_injective htext⟩
      have hthen (asked : Asked) : (options.actThen asked >>= fun next => next.1.take next.2 rest) =
          options.act asked.1 >>= act (actions asked.2 rest) := by
        rw [actThen]
        cases options.act asked.1 with
        | error refusal => rfl
        | ok next => exact ih asked.2 next
      have hone (a : Action) : (a.apply options >>= fun next => next.take none rest) =
          options.act [a] >>= act (actions none rest) := by
        rw [act_singleton]
        cases a.apply options with
        | error refusal => rfl
        | ok next => exact ih none next
      rw [if_neg hends, act_append, take.eq_def]
      dsimp only
      split
      · rw [Asked.ofArgument.eq_1 _ _ _ _ ‹_›]
        rfl
      · rw [Asked.ofArgument.eq_2 _ _ ‹_›]
        exact hone (.give _ argument)
      · exact absurd ‹_› (hdashes rfl)
      · rw [Asked.ofArgument.eq_3 _ _ ‹_›, takeLong_eq]
        exact hthen _
      · rw [Asked.ofArgument.eq_4 _ _ _ ‹_› ‹_›, takeShort_eq]
        exact hthen _
      · rw [Asked.ofArgument.eq_5 _ ‹_› ‹_›]
        exact hone (.enter argument)

end Options

end ImportLedger.CommandLine
