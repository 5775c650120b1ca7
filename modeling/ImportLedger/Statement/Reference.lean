import ImportLedger.Order
import ImportLedger.Statement.Shape

/-! References: every place of a line that names a module, whether or not a name is bound. -/

namespace ImportLedger

/-- A `require` call, with its byte offset in the line. -/
structure RequireCall where
  specifier : String
  text : String
  start : Nat
  deriving DecidableEq, Repr

/-- A module specifier and the byte offset of the statement it stands in. -/
structure ModuleReference where
  start : Nat
  specifier : String
  deriving DecidableEq, Repr

/-- The `require` calls of a line, from left to right. -/
def requireCalls (text : String) : List RequireCall :=
  (Occurrence.findAll Shape.requireCall.read text.toList).map fun o =>
    ⟨String.ofList o.value, String.ofList o.text, o.start⟩

/-- The references of one shape, from left to right. -/
def ReferenceShape.references (shape : ReferenceShape) (text : List Char) :
    List ModuleReference :=
  (Occurrence.findAll shape.read text).map fun o => ⟨o.start, String.ofList o.value⟩

def BindingShape.references (shape : BindingShape) (text : List Char) : List ModuleReference :=
  (Occurrence.findAll shape.read text).map fun o => ⟨o.start, String.ofList o.value.specifier⟩

/-- The references of a line, from left to right: `require` calls, `import … from` statements,
imports for their side effects alone, and calls of `import`. -/
def moduleReferences (text : String) : List ModuleReference :=
  sortBy (fun a b => decide (a.start ≤ b.start))
    (Shape.requireCall.references text.toList ++ Shape.importFrom.references text.toList
      ++ Shape.sideEffectImport.references text.toList
      ++ Shape.dynamicImport.references text.toList)

end ImportLedger
