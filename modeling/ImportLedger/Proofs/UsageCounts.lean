import ImportLedger.Proofs.BindingSearch
import ImportLedger.Proofs.LineTokens
import ImportLedger.Proofs.Records

/-! Usage counts against the whole text. The ledger counts line by line and leaves out tokens of the
declaring line; the same count comes from the tokens of the undivided text, without those that lie
in the declaring statement. -/

namespace ImportLedger

open Text

namespace Declaration

/-- Whether a byte offset of a whole text lies inside the statement. -/
def coversIn (d : Declaration) (text : String) (offset : Nat) : Bool :=
  Line.startIn text d.line + d.start ≤ offset && offset < Line.startIn text d.line + d.stop

/-- The tokens of a whole text that refer to a declaration on one of its lines. -/
def referencesIn (d : Declaration) (text : String) : List Identifier :=
  (identifiers text).filter fun i =>
    (boundNames d.binding).contains i.text && !d.coversIn text i.start

end Declaration

theorem stop_le_of_mem_bindingStatements {text : String} {b : BindingStatement}
    (h : b ∈ bindingStatements text) : b.stop ≤ byteLength text.toList := by
  obtain ⟨whole, ⟨p, left, ht, hstart, -, -⟩, hstop, -⟩ :=
    derivesAt_of_mem_statements (mem_bindingStatements.mp h)
  rw [ht, byteLength_append, byteLength_append]
  omega

/-- Lines of a text with different numbers share no byte of it. -/
theorem Line.apart_of_mem_ofText {text : String} {a b : Line} (ha : a ∈ ofText text)
    (hb : b ∈ ofText text) :
    a.number = b.number ∨ startIn text a.number + byteLength a.text.toList < startIn text b.number ∨
      startIn text b.number + byteLength b.text.toList < startIn text a.number := by
  have horder := pairwise_startIn text
  have hforward : (ofText text).Pairwise fun a b => a.number = b.number ∨
      startIn text a.number + byteLength a.text.toList < startIn text b.number ∨
      startIn text b.number + byteLength b.text.toList < startIn text a.number :=
    horder.imp fun h => .inr (.inl h)
  refine List.Pairwise.forall_of_forall_of_flip (fun _ _ => .inl rfl) hforward ?_ ha hb
  exact horder.imp fun h => .inr (.inr h)

theorem coversIn_shift {text file : String} {dependencies : List Dependency} {d : Declaration}
    (hd : d ∈ findDeclarations (Line.ofText text) file dependencies) {line : Line}
    (hl : line ∈ Line.ofText text) {i : Identifier} (hi : i ∈ identifiers line.text) :
    d.coversIn text (Line.startIn text line.number + i.start) =
      (line.number == d.line && d.covers i.start) := by
  obtain ⟨own, hown, s, hs, -, -, he⟩ := mem_findDeclarations.mp hd
  have hnumber : d.line = own.number := by rw [he]
  have hstop : d.stop ≤ byteLength own.text.toList := by
    rw [he]
    exact stop_le_of_mem_bindingStatements hs
  have hlt := (Identifier.start_lt_of_mem_scan hi).2
  rw [Declaration.coversIn, Declaration.covers, hnumber]
  -- On the declaring line both sides measure from its start; no other line reaches the statement.
  by_cases hsame : line.number = own.number
  · have hleft : decide (Line.startIn text own.number + d.start ≤
        Line.startIn text own.number + i.start) = decide (d.start ≤ i.start) :=
      decide_eq_decide.mpr (by omega)
    have hright : decide (Line.startIn text own.number + i.start <
        Line.startIn text own.number + d.stop) = decide (i.start < d.stop) :=
      decide_eq_decide.mpr (by omega)
    rw [hsame, hleft, hright, beq_self_eq_true, Bool.true_and]
  · have hno : ¬ (Line.startIn text own.number + d.start ≤
        Line.startIn text line.number + i.start ∧ Line.startIn text line.number + i.start <
          Line.startIn text own.number + d.stop) := by
      rcases (Line.apart_of_mem_ofText hl hown).resolve_left hsame with h | h <;> omega
    rw [beq_eq_false_iff_ne.mpr hsame, Bool.false_and, ← Bool.decide_and]
    exact decide_eq_false hno

theorem referencesIn_eq_flatMap {text file : String} {dependencies : List Dependency}
    {d : Declaration} (hd : d ∈ findDeclarations (Line.ofText text) file dependencies) :
    d.referencesIn text = (Line.ofText text).flatMap fun line =>
      (d.referencesOn line).map (Identifier.shift (Line.startIn text line.number)) := by
  rw [Declaration.referencesIn, Line.identifiers_eq_flatMap, List.filter_flatMap]
  refine List.flatMap_congr fun line hl => ?_
  rw [List.filter_map, Declaration.referencesOn]
  congr 1
  refine List.filter_congr fun i hi => ?_
  have hcovers := coversIn_shift hd hl hi
  simp only [Function.comp, Identifier.shift, hcovers, Bool.and_comm]

theorem Declaration.references_eq_length (d : Declaration) (lines : List Line) :
    d.references lines = (lines.flatMap d.referencesOn).length := by
  induction lines with
  | nil => rfl
  | cons line lines ih =>
    rw [List.flatMap_cons, List.length_append, ← ih]
    rfl

theorem length_referencesIn {text file : String} {dependencies : List Dependency}
    {d : Declaration} (hd : d ∈ findDeclarations (Line.ofText text) file dependencies) :
    (d.referencesIn text).length = d.references (Line.ofText text) := by
  rw [referencesIn_eq_flatMap hd, d.references_eq_length, List.length_flatMap,
    List.length_flatMap]
  simp only [List.length_map]

/-- The ledger of a file counts over the file as a whole: to each declaration belong the statement
itself and every token of the undivided text that is one of the bound names and does not lie in the
statement. -/
theorem usageRecords_of_text (text file label : String) (dependencies : List Dependency) :
    let declarations := findDeclarations (Line.ofText text) file dependencies
    usageRecords (Line.ofText text) label declarations = declarations.map fun d =>
      { name := d.name, declaration := d.literal, file := label, line := d.line,
        occurrences := 1 + (d.referencesIn text).length } := by
  intro declarations
  refine List.map_congr_left fun d hd => ?_
  rw [length_referencesIn hd]

end ImportLedger
