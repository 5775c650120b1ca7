import Mathlib.Logic.Relation
import ImportLedger.Proofs.KeyedGroups
import ImportLedger.Proofs.SourceMembers

/-! Directories that list what they hold in another order. Every path leads where it led, and what
stands there differs at most in the order of entries again. -/

namespace ImportLedger

namespace FileTree

theorem wellFormedEntries_iff {entries : List (String × FileTree)} :
    wellFormedEntries entries = true ↔ (entries.map (·.1)).Nodup ∧
      ∀ e ∈ entries, Path.isEntryName e.1 = true ∧ e.2.wellFormed = true := by
  induction entries with
  | nil => simp [wellFormedEntries]
  | cons e rest ih =>
    rw [wellFormedEntries_cons, ih, List.map_cons, List.nodup_cons, List.forall_mem_cons]
    constructor
    · rintro ⟨hname, hfresh, hnode, hnodup, hall⟩
      exact ⟨⟨hfresh, hnodup⟩, ⟨hname, hnode⟩, hall⟩
    · rintro ⟨⟨hfresh, hnodup⟩, ⟨hname, hnode⟩, hall⟩
      exact ⟨hname, hfresh, hnode, hnodup, hall⟩

/-- One directory somewhere in a tree lists its entries in another order. -/
inductive Reorders : FileTree → FileTree → Prop
  | here {entries entries' : Entries} (h : entries.Perm entries') :
    Reorders (directory entries) (directory entries')
  | inside {before after : Entries} {name : String} {node node' : FileTree}
    (h : Reorders node node') :
    Reorders (directory (before ++ (name, node) :: after))
      (directory (before ++ (name, node') :: after))

/-- A node without what a directory holds. -/
def outline : FileTree → FileTree
  | directory _ => directory []
  | node => node

/-- Trees with the same files, links and directories at the same places. -/
def SameNodes (a b : FileTree) : Prop :=
  ∀ place, (a.at? place).map outline = (b.at? place).map outline

theorem shape_outline (node : FileTree) : node.outline.shape = node.shape := by
  cases node <;> rfl

namespace SameNodes

variable {a b : FileTree}

theorem shape (h : SameNodes a b) (place : List String) :
    (a.at? place).map shape = (b.at? place).map shape := by
  have hh := congrArg (Option.map FileTree.shape) (h place)
  simpa only [Option.map_map, Function.comp_def, shape_outline] using hh

theorem refl (a : FileTree) : SameNodes a a := fun _ => rfl

theorem trans {c : FileTree} (h : SameNodes a b) (h' : SameNodes b c) : SameNodes a c :=
  fun place => (h place).trans (h' place)

theorem outline_eq (h : SameNodes a b) : a.outline = b.outline := Option.some.inj (h [])

theorem eq_file {content : Text.Utf8.Bytes} (h : SameNodes (file content) b) :
    b = file content := by
  have hh := h.outline_eq
  cases b with
  | file content => exact hh.symm
  | link target => cases hh
  | directory entries => cases hh

theorem eq_link {target : String} (h : SameNodes (link target) b) : b = link target := by
  have hh := h.outline_eq
  cases b with
  | file content => cases hh
  | link target => exact hh.symm
  | directory entries => cases hh

theorem eq_directory {entries : Entries} (h : SameNodes (directory entries) b) :
    ∃ entries', b = directory entries' := by
  have hh := h.outline_eq
  cases b with
  | file content => cases hh
  | link target => cases hh
  | directory entries => exact ⟨_, rfl⟩

theorem entries (h : SameNodes a b) : SameNodes (directory a.entries) (directory b.entries) := by
  cases a with
  | file content => exact h.eq_file ▸ refl _
  | link target => exact h.eq_link ▸ refl _
  | directory entries =>
    obtain ⟨entries', rfl⟩ := h.eq_directory
    exact h

theorem at?_file_iff (h : SameNodes a b) {place : List String} {content : Text.Utf8.Bytes} :
    a.at? place = some (file content) ↔ b.at? place = some (file content) := by
  have hfile (node : Option FileTree) : node = some (file content) ↔
      node.map outline = some (file content) := by
    constructor
    · rintro rfl
      rfl
    · intro hn
      obtain ⟨t, rfl, ht⟩ := Option.map_eq_some_iff.mp hn
      cases t with
      | directory entries => cases ht
      | file content => exact congrArg some ht
      | link target => exact congrArg some ht
  rw [hfile, h place, ← hfile]

/-- What stands at a place of one tree stands there in the other, but for the order of entries. -/
theorem exists_at? (h : SameNodes a b) {place : List String} {node : FileTree}
    (ha : a.at? place = some node) : ∃ node', b.at? place = some node' ∧ SameNodes node node' := by
  obtain ⟨node', hb, -⟩ : ∃ node', b.at? place = some node' ∧ node'.outline = node.outline := by
    have hh := h place
    rw [ha, Option.map_some] at hh
    exact Option.map_eq_some_iff.mp hh.symm
  refine ⟨node', hb, fun rest => ?_⟩
  have hh := h (place ++ rest)
  rwa [at?_append, at?_append, ha, hb] at hh

theorem of_lookup {entries entries' : Entries}
    (h : ∀ name rest, ((entries.lookup name).bind (·.at? rest)).map outline =
      ((entries'.lookup name).bind (·.at? rest)).map outline) :
    SameNodes (directory entries) (directory entries') := by
  have hcons (entries : Entries) (name : String) (rest : List String) :
      (directory entries).at? (name :: rest) = (entries.lookup name).bind (·.at? rest) := by
    rw [at?]
    cases entries.lookup name <;> rfl
  intro place
  cases place with
  | nil => rfl
  | cons name rest =>
    rw [hcons, hcons]
    exact h name rest

end SameNodes

/-- Listing entries in another order changes neither what a tree may hold nor what it holds. -/
theorem Reorders.preserves {a b : FileTree} (h : Reorders a b) (hw : a.wellFormed = true) :
    b.wellFormed = true ∧ SameNodes a b := by
  induction h with
  | @here entries entries' hp =>
    rw [wellFormed, wellFormedEntries_iff] at hw ⊢
    refine ⟨⟨(hp.map _).nodup_iff.mp hw.1, fun e he => hw.2 e (hp.mem_iff.mpr he)⟩, ?_⟩
    refine .of_lookup fun name rest => ?_
    rw [lookup_perm hw.1 hp]
  | @inside before after name node node' h ih =>
    rw [wellFormed, wellFormedEntries_iff, List.forall_mem_append, List.forall_mem_cons] at hw ⊢
    obtain ⟨hnodup, hbefore, ⟨hname, hnode⟩, hafter⟩ := hw
    obtain ⟨hnode', hsame⟩ := ih hnode
    refine ⟨⟨by simpa using hnodup, hbefore, ⟨hname, hnode'⟩, hafter⟩, ?_⟩
    refine .of_lookup fun n rest => ?_
    rw [List.lookup_append, List.lookup_append, List.lookup_cons, List.lookup_cons]
    cases before.lookup n with
    | some child => rfl
    | none =>
      by_cases hn : n = name
      · subst hn
        simpa using hsame rest
      · have hb : (n == name) = false := beq_eq_false_iff_ne.mpr hn
        simp [hb]

theorem preserves_of_reorders {a b : FileTree} (h : Relation.ReflTransGen Reorders a b)
    (hw : a.wellFormed = true) : b.wellFormed = true ∧ SameNodes a b := by
  induction h with
  | refl => exact ⟨hw, .refl a⟩
  | tail _ hstep ih =>
    obtain ⟨hw', hsame⟩ := ih
    obtain ⟨hw'', hsame'⟩ := hstep.preserves hw'
    exact ⟨hw'', hsame.trans hsame'⟩

end FileTree

/-- Outcomes that fail alike, or succeed with related results. -/
inductive SameOutcome {ε α : Type} (R : α → α → Prop) : Except ε α → Except ε α → Prop
  | error {cause : ε} : SameOutcome R (.error cause) (.error cause)
  | ok {a b : α} (h : R a b) : SameOutcome R (.ok a) (.ok b)

theorem SameOutcome.map {ε α : Type} {R : α → α → Prop} {f : α → α} {e e' : Except ε α}
    (h : SameOutcome R e e') (hf : ∀ a b, R a b → R (f a) (f b)) :
    SameOutcome R (e.map f) (e'.map f) := by
  cases h with
  | error => exact .error
  | ok h => exact .ok (hf _ _ h)

namespace Disk

open FileTree

variable {disk : Disk} {tree : FileTree}

theorem resolve_of_sameNodes (h : SameNodes disk.tree tree) (purpose : Purpose) (path : String) :
    { disk with tree }.resolve purpose path = disk.resolve purpose path := by
  rw [resolve, resolve]
  simp only [follow_congr fun place => (h.shape place).symm]

theorem lookup_of_sameNodes (h : SameNodes disk.tree tree) (purpose : Purpose) (path : String) :
    SameOutcome SameNodes (disk.lookup purpose path) ({ disk with tree }.lookup purpose path) := by
  have hresolve := resolve_of_sameNodes h purpose path
  cases hr : disk.resolve purpose path with
  | error cause =>
    simp only [lookup, hresolve, hr]
    exact .error
  | ok target =>
    cases target with
    | vacant place =>
      simp only [lookup, hresolve, hr]
      exact .error
    | found place =>
      cases ha : disk.tree.at? place with
      | none =>
        have hb : tree.at? place = none := by
          have hh := h place
          rw [ha] at hh
          exact Option.map_eq_none_iff.mp hh.symm
        simp only [lookup, hresolve, hr, ha, hb, bind, Except.bind]
        exact .error
      | some node =>
        obtain ⟨node', hb, hnode⟩ := h.exists_at? ha
        rw [lookup_of_resolve hr ha, lookup_of_resolve (hresolve.trans hr) hb]
        exact .ok hnode

theorem searched_of_sameNodes (h : SameNodes disk.tree tree) (root : String) :
    SameOutcome SameNodes (disk.searched root) ({ disk with tree }.searched root) := by
  rw [searched, searched]
  have hinspect := lookup_of_sameNodes h .inspect root
  have hread := lookup_of_sameNodes h .read root
  revert hinspect
  generalize disk.lookup .inspect root = first
  generalize { disk with tree }.lookup .inspect root = first'
  intro hinspect
  cases hinspect with
  | error => exact .error
  | @ok node node' hnode =>
    cases node with
    | file content =>
      obtain rfl := hnode.eq_file
      exact .ok hnode
    | directory entries =>
      obtain ⟨entries', rfl⟩ := hnode.eq_directory
      exact .ok hnode
    | link target =>
      obtain rfl := hnode.eq_link
      exact hread.map fun _ _ hsame => hsame.entries

end Disk

end ImportLedger
