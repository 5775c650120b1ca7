import ImportLedger.Order
import ImportLedger.Statement.Shape

/-! Binding statements: the declarations on a line that give names to what a module exports. -/

namespace ImportLedger

inductive BindingKind
  /-- A declaration whose value is a `require` call. -/
  | require
  /-- A declaration whose value is a call of `import`, awaited or not. -/
  | dynamicImport
  /-- An `import … from` statement. -/
  | importFrom
  deriving DecidableEq, Repr

/-- A binding statement of a line, with the byte offsets of its two ends. -/
structure BindingStatement where
  kind : BindingKind
  /-- The bound text: a name, a list of names in brackets, or a namespace alias. -/
  binding : String
  specifier : String
  /-- The call for `require` and `import(…)`, the whole statement for `import … from`. -/
  reference : String
  start : Nat
  stop : Nat
  deriving DecidableEq, Repr

namespace BindingKind

def shape : BindingKind → BindingShape
  | require => Shape.requireBinding
  | dynamicImport => Shape.dynamicBinding
  | importFrom => Shape.importFrom

/-- The statement that an occurrence of the kind's shape is. -/
def statement (kind : BindingKind) (o : Occurrence BindingReading) : BindingStatement where
  kind := kind
  binding := String.ofList o.value.binding
  specifier := String.ofList o.value.specifier
  reference := String.ofList (match kind with
    | importFrom => o.text
    | require | dynamicImport => o.value.reference)
  start := o.start
  stop := o.stop

/-- The statements of one kind, from left to right. -/
def statements (kind : BindingKind) (text : List Char) : List BindingStatement :=
  (Occurrence.findAll kind.shape.read text).map kind.statement

end BindingKind

/-- The binding statements of a line, from left to right. -/
def bindingStatements (text : String) : List BindingStatement :=
  sortBy (fun a b => decide (a.start ≤ b.start))
    (BindingKind.require.statements text.toList ++ BindingKind.dynamicImport.statements text.toList
      ++ BindingKind.importFrom.statements text.toList)

end ImportLedger
