import Conform.Schema.Validation

/-!
Record models: struct schemas exported with a name. A maker of records is given the
name, the layout of the fields and the check of the schema, which looks at the data
before all else. What it makes of data that passes is its own affair.
-/
namespace Conform

structure Model where
  name : String
  schema : Schema
  fields : TypeExpr.Layout

structure ModelError where
  title : String
  message : String
  deriving DecidableEq, Repr

/-- Faults over values that cannot be written or read count as rejections in a model. -/
def Fault.countsAsRejection : Fault → Bool
  | .unwritableInteger | .unreadableInteger _ | .unknownKind .. | .emptyUnion | .thrown .. => true
  | _ => false

namespace Model

/-- The type of a field in the model; one that may be absent may be null. -/
def fieldType (field : String × TypeExpr × Bool) : Except Fault (String × TypeExpr × Bool) :=
  match field with
  | (name, type, true) => .ok (name, type, true)
  | (name, type, false) => do
    let optional ← TypeExpr.unionOf [type, .none]
    .ok (name, optional, false)

def of (name : String) (schema : Schema) : Except Fault Model := do
  if schema.isStruct then
    let layout ← schema.structFields
    let fields ← layout.mapM fieldType
    .ok ⟨name, schema, fields⟩
  else .error .notExportable

def stored? (v : Value) (name : String) : Option Value :=
  match v.container? with
  | some (.map entries) => valueUnder? entries (.scalar (.text name))
  | _ => none

/-- What data goes through first: it is let through, or turned down with a text. -/
def checkShape (m : Model) (v : Value) : Except Fault (Except String Value) :=
  match (m.schema.validate v).result with
  | .ok (.ok v) => .ok (.ok v)
  | .ok (.error error) => .ok (.error error.message)
  | .error fault => match fault.countsAsRejection, fault.message? with
    | true, some message => .ok (.error message)
    | _, _ => .error fault

end Model

/-- Makes a record from a title, a layout, a check that goes before, and data. -/
abbrev RecordMaker := String → TypeExpr.Layout → (Value → Except Fault (Except String Value)) →
  Value → Except Fault (Except ModelError (List (String × Value)))

/-- Checks, then looks for the required fields, and then keeps what it finds: every declared
    field, an absent optional one as null, and nothing else. -/
def stagedRecord : RecordMaker := fun title fields before v => do
  match ← before v with
  | .error message => .ok (.error ⟨title, "Value error, " ++ message⟩)
  | .ok w =>
    if ∀ field ∈ fields, field.2.2 = true → (Model.stored? w field.1).isSome then
      .ok (.ok (fields.map fun field => (field.1, (Model.stored? w field.1).getD .null)))
    else .ok (.error ⟨title, "Field required"⟩)

/-- Hands data to a maker of records. Whatever is observed of it is observed by the check. -/
def Model.receive (m : Model) (make : RecordMaker) (v : Value) :
    Run (Except ModelError (List (String × Value))) :=
  ⟨(m.schema.validate v).events, make m.name m.fields m.checkShape v⟩

end Conform
