import ImportLedger.Disk.Basic

/-! Where paths lead. What stands at the end of a path depends on the directories and links on the
way alone, and only a link tells reading from looking. -/

namespace ImportLedger

namespace FileTree

theorem at?_append {tree : FileTree} {p q : List String} :
    tree.at? (p ++ q) = (tree.at? p).bind (·.at? q) := by
  induction p generalizing tree with
  | nil => rfl
  | cons name p ih =>
    cases tree with
    | file content => rfl
    | link target => rfl
    | directory entries =>
      cases hl : entries.lookup name with
      | none => simp [at?, hl]
      | some child => simp [at?, hl, ih]

theorem at?_concat {tree : FileTree} {p : List String} {entries : Entries}
    (h : tree.at? p = some (directory entries)) (name : String) :
    tree.at? (p ++ [name]) = entries.lookup name := by
  rw [at?_append, h, Option.bind_some, at?]
  cases entries.lookup name <;> rfl

/-- A node without the content of a file and without what a directory holds. -/
def shape : FileTree → FileTree
  | file _ => file []
  | link target => link target
  | directory _ => directory []

end FileTree

/-- Where a step leads that enters nothing. -/
def Path.Step.move? (step : Path.Step) (place : List String) : Option (List String) :=
  match step with
  | .here | .slash => some place
  | .up => some place.tail
  | .enter _ => none

namespace Disk

open FileTree

theorem follow_cons_of_not_directory {tree : FileTree} {place : List String}
    (h : ∀ entries, tree.at? place.reverse ≠ some (directory entries)) (purpose : Purpose)
    (links : Nat) (step : Path.Step) (rest : List Path.Step) :
    follow tree purpose links place (step :: rest) = .error .notDirectory := by
  rw [follow]
  split
  · exact absurd ‹_› (h _)
  · rfl

theorem eq_directory_of_shape {a b : Option FileTree} {entries : Entries}
    (h : a.map shape = b.map shape) (hb : b = some (directory entries)) :
    ∃ entries', a = some (directory entries') := by
  subst hb
  cases a with
  | none => cases h
  | some node => cases node <;> simp [shape] at h ⊢

/-- Where a path leads depends on the directories and links of the tree alone. -/
theorem follow_congr {tree tree' : FileTree}
    (h : ∀ place, (tree'.at? place).map shape = (tree.at? place).map shape) (purpose : Purpose)
    (links : Nat) (place : List String) (steps : List Path.Step) :
    follow tree' purpose links place steps = follow tree purpose links place steps := by
  -- A link puts the steps of its target in front of the rest: the links left come first.
  induction links using Nat.strongRecOn generalizing place steps with
  | ind links ihl =>
    induction steps generalizing place with
    | nil => rw [follow, follow]
    | cons step rest ih =>
      have hp := h place.reverse
      by_cases hd : ∃ entries, tree.at? place.reverse = some (directory entries)
      · obtain ⟨entries, he⟩ := hd
        obtain ⟨entries', he'⟩ := eq_directory_of_shape hp he
        rw [follow, follow, he, he']
        cases step with
        | here => exact ih place
        | slash => exact ih place
        | up => exact ih place.tail
        | enter name =>
          have hn : (entries'.lookup name).map shape = (entries.lookup name).map shape := by
            rw [← at?_concat he, ← at?_concat he']
            exact h (place.reverse ++ [name])
          dsimp only
          split
          · rfl
          · have hinner := ih (name :: place)
            cases hl : entries.lookup name with
            | none =>
              have hl' : entries'.lookup name = none := by simpa [hl] using hn
              rw [hl']
            | some child =>
              rw [hl] at hn
              obtain ⟨child', hl', hs⟩ := Option.map_eq_some_iff.mp hn
              rw [hl']
              cases child with
              | link target =>
                obtain rfl : child' = .link target := by cases child' <;> simp_all [shape]
                dsimp only
                split
                · rfl
                · cases links with
                  | zero => rfl
                  | succ links => exact ihl links (Nat.lt_succ_self links) _ _
              | file content =>
                obtain ⟨content', rfl⟩ : ∃ content', child' = .file content' := by
                  cases child' <;> simp_all [shape]
                exact hinner
              | directory inner =>
                obtain ⟨inner', rfl⟩ : ∃ inner', child' = .directory inner' := by
                  cases child' <;> simp_all [shape]
                exact hinner
      · have hd' : ∀ entries, tree.at? place.reverse ≠ some (directory entries) :=
          fun entries he => hd ⟨entries, he⟩
        have hd'' : ∀ entries, tree'.at? place.reverse ≠ some (directory entries) :=
          fun entries he => hd (eq_directory_of_shape hp.symm he)
        rw [follow_cons_of_not_directory hd'', follow_cons_of_not_directory hd']

/-- How a path leads to its target. Places are given last name first. -/
inductive Leads (tree : FileTree) (purpose : Purpose) :
    Nat → List String → List Path.Step → Target → Prop
  | arrive {links : Nat} {place : List String} :
    Leads tree purpose links place [] (.found place.reverse)
  | move {links : Nat} {place next : List String} {step : Path.Step} {rest : List Path.Step}
    {target : Target} {entries : Entries} (hd : tree.at? place.reverse = some (directory entries))
    (hm : step.move? place = some next) (h : Leads tree purpose links next rest target) :
    Leads tree purpose links place (step :: rest) target
  | vacant {links : Nat} {place : List String} {name : String} {entries : Entries}
    (hd : tree.at? place.reverse = some (directory entries)) (hl : entries.lookup name = none) :
    Leads tree purpose links place [.enter name] (.vacant (name :: place).reverse)
  | enter {links : Nat} {place : List String} {name : String} {rest : List Path.Step}
    {target : Target} {entries : Entries} {child : FileTree}
    (hd : tree.at? place.reverse = some (directory entries))
    (hw : ¬ (purpose = .write ∧ rest = [.slash])) (hl : entries.lookup name = some child)
    (hlink : ∀ text, child ≠ link text)
    (h : Leads tree purpose links (name :: place) rest target) :
    Leads tree purpose links place (.enter name :: rest) target
  | inspect {links : Nat} {place : List String} {name text : String} {entries : Entries}
    (hd : tree.at? place.reverse = some (directory entries))
    (hl : entries.lookup name = some (link text)) (hp : purpose = .inspect) :
    Leads tree purpose links place [.enter name] (.found (name :: place).reverse)
  | through {links : Nat} {place : List String} {name text : String} {rest : List Path.Step}
    {target : Target} {entries : Entries} (hd : tree.at? place.reverse = some (directory entries))
    (hw : ¬ (purpose = .write ∧ rest = [.slash])) (hl : entries.lookup name = some (link text))
    (hp : ¬ (rest.isEmpty = true ∧ purpose = .inspect))
    (h : Leads tree purpose links (if Path.isAbsolute text then [] else place)
      (Path.steps text ++ rest) target) :
    Leads tree purpose (links + 1) place (.enter name :: rest) target

theorem leads_of_follow {tree : FileTree} {purpose : Purpose} {links : Nat} {place : List String}
    {steps : List Path.Step} {target : Target}
    (h : follow tree purpose links place steps = .ok target) :
    Leads tree purpose links place steps target := by
  induction links using Nat.strongRecOn generalizing place steps with
  | ind links ihl =>
    induction steps generalizing place with
    | nil =>
      rw [follow] at h
      exact Except.ok.inj h ▸ .arrive
    | cons step rest ih =>
      by_cases hd : ∃ entries, tree.at? place.reverse = some (directory entries)
      · obtain ⟨entries, he⟩ := hd
        rw [follow, he] at h
        cases step with
        | here => exact .move he rfl (ih h)
        | slash => exact .move he rfl (ih h)
        | up => exact .move he rfl (ih h)
        | enter name =>
          dsimp only at h
          split at h
          · cases h
          · rename_i hw
            cases hl : entries.lookup name with
            | none =>
              rw [hl] at h
              dsimp only at h
              split at h
              · rename_i hrest
                obtain rfl := List.isEmpty_iff.mp hrest
                exact Except.ok.inj h ▸ .vacant he hl
              · cases h
            | some child =>
              rw [hl] at h
              cases child with
              | link text =>
                dsimp only at h
                split at h
                · rename_i hend
                  obtain ⟨hrest, hp⟩ := hend
                  obtain rfl := List.isEmpty_iff.mp hrest
                  exact Except.ok.inj h ▸ .inspect he hl hp
                · rename_i hend
                  cases links with
                  | zero => cases h
                  | succ links => exact .through he hw hl hend (ihl links (Nat.lt_succ_self links) h)
              | file content => exact .enter he hw hl (by simp) (ih h)
              | directory inner => exact .enter he hw hl (by simp) (ih h)
      · rw [follow_cons_of_not_directory fun entries he => hd ⟨entries, he⟩] at h
        cases h

theorem Leads.follow_eq {tree : FileTree} {purpose : Purpose} {links : Nat} {place : List String}
    {steps : List Path.Step} {target : Target} (h : Leads tree purpose links place steps target) :
    follow tree purpose links place steps = .ok target := by
  induction h with
  | arrive => rw [follow]
  | @move links place next step rest target entries hd hm h ih =>
    rw [follow, hd]
    cases step with
    | enter name => cases hm
    | here => exact Option.some.inj hm ▸ ih
    | slash => exact Option.some.inj hm ▸ ih
    | up => exact Option.some.inj hm ▸ ih
  | vacant hd hl =>
    rw [follow, hd]
    dsimp only
    rw [if_neg (by simp), hl]
    rfl
  | @enter links place name rest target entries child hd hw hl hlink h ih =>
    rw [follow, hd]
    dsimp only
    rw [if_neg hw, hl]
    cases child with
    | link text => exact absurd rfl (hlink text)
    | file content => exact ih
    | directory inner => exact ih
  | inspect hd hl hp =>
    rw [follow, hd]
    dsimp only
    rw [if_neg (by simp), hl]
    exact if_pos ⟨rfl, hp⟩
  | through hd hw hl hp h ih =>
    rw [follow, hd]
    dsimp only
    rw [if_neg hw, hl]
    dsimp only
    rw [if_neg hp]
    exact ih

/-- Only a link at the end of a path tells reading from looking, and nothing tells it from
writing. -/
theorem Leads.read {tree : FileTree} {purpose : Purpose} {links : Nat} {place : List String}
    {steps : List Path.Step} {target : Target} (h : Leads tree purpose links place steps target)
    (hend : purpose = .inspect →
      ∀ found, target = .found found → ∀ text, tree.at? found ≠ some (link text)) :
    Leads tree .read links place steps target := by
  induction h with
  | arrive => exact .arrive
  | move hd hm _ ih => exact .move hd hm (ih hend)
  | vacant hd hl => exact .vacant hd hl
  | enter hd _ hl hlink _ ih => exact .enter hd (by simp) hl hlink (ih hend)
  | @inspect _ place name text _ hd hl hp =>
    refine absurd ?_ (hend hp _ rfl text)
    rw [List.reverse_cons, at?_concat hd, hl]
  | through hd _ hl _ _ ih => exact .through hd (by simp) hl (by simp) (ih hend)

theorem resolve_ok_iff {disk : Disk} {purpose : Purpose} {path : String} {target : Target} :
    disk.resolve purpose path = .ok target ↔ path ≠ "" ∧ Leads disk.tree purpose linkBound
      (if Path.isAbsolute path then [] else disk.workingDirectory.reverse) (Path.steps path)
      target := by
  rw [resolve]
  split
  · exact ⟨fun h => (by cases h), fun h => absurd ‹_› h.1⟩
  · exact ⟨fun h => ⟨‹_›, leads_of_follow h⟩, fun h => h.2.follow_eq⟩

theorem lookup_ok {disk : Disk} {purpose : Purpose} {path : String} {node : FileTree}
    (h : disk.lookup purpose path = .ok node) :
    ∃ place, disk.resolve purpose path = .ok (.found place) ∧ disk.tree.at? place = some node := by
  cases hr : disk.resolve purpose path with
  | error cause => simp [lookup, hr, bind, Except.bind] at h
  | ok target =>
    cases target with
    | vacant place => simp [lookup, hr, bind, Except.bind] at h
    | found place =>
      cases ha : disk.tree.at? place with
      | none => simp [lookup, hr, ha, bind, Except.bind] at h
      | some other =>
        have he : other = node := by simpa [lookup, hr, ha, bind, Except.bind] using h
        exact ⟨place, rfl, he ▸ ha⟩

theorem lookup_of_resolve {disk : Disk} {purpose : Purpose} {path : String}
    {place : List String} {node : FileTree} (hr : disk.resolve purpose path = .ok (.found place))
    (ha : disk.tree.at? place = some node) : disk.lookup purpose path = .ok node := by
  simp [lookup, hr, ha, bind, Except.bind]

theorem resolve_read_of_inspect {disk : Disk} {path : String} {place : List String}
    (h : disk.resolve .inspect path = .ok (.found place))
    (hlink : ∀ target, disk.tree.at? place ≠ some (.link target)) :
    disk.resolve .read path = .ok (.found place) := by
  obtain ⟨hne, hleads⟩ := resolve_ok_iff.mp h
  refine resolve_ok_iff.mpr ⟨hne, hleads.read fun _ found hf => ?_⟩
  exact Target.found.inj hf ▸ hlink

end Disk

end ImportLedger
