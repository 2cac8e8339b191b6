import Conform.Shape.Typing

/-!
Schemas: shapes that can be built, each with its type. Every literal,
struct and merge gets a tag of its own, so that their types can be told to come
from one and the same schema.
-/
namespace Conform

structure Schema where
  shape : Shape
  type : TypeExpr
  typed : shape.typeExpr = .ok type

/-- Building may fail, and counts the tags that are taken. -/
abbrev Build := StateT Nat (Except Fault)

namespace Schema

def of (shape : Shape) : Except Fault Schema :=
  match typed : shape.typeExpr with
  | .ok type => .ok ⟨shape, type, typed⟩
  | .error fault => .error fault

def newTag : Build Nat := fun tag => .ok (tag, tag + 1)

def atomic (name : String) : Except Fault Schema :=
  match AtomicKind.ofName? name with
  | some k => of (.atomic k)
  | none => .error (.unknownKind (String.ofList (Text.quoted name.toList))
      (", ".intercalate (AtomicKind.all.map AtomicKind.name)))

def literal (candidates : List Value) : Build Schema := do
  let tag ← newTag
  of (.literal tag candidates)

def optional (s : Schema) : Except Fault Schema := of (.optional s.shape)

def nullable (s : Schema) : Except Fault Schema := of (.nullable s.shape)

def array (s : Schema) : Except Fault Schema := of (.array s.shape)

def record (s : Schema) : Except Fault Schema := of (.record s.shape)

def tuple (items : List Schema) : Except Fault Schema := of (.tuple (items.map shape))

def either (left right : Schema) : Except Fault Schema := of (.either left.shape right.shape)

def anyOf (alternatives : List Schema) : Except Fault Schema :=
  of (.anyOf (alternatives.map shape))

def both (left right : Schema) : Except Fault Schema := of (.both left.shape right.shape)

def merge (left right : Schema) : Build Schema := do
  let tag ← newTag
  of (.merge tag left.shape right.shape)

def refined (base : Schema) (refine : Check) : Except Fault Schema :=
  of (.refined base.shape refine)

def custom (check : Check) (type : TypeExpr) : Except Fault Schema := of (.custom check type)

/-- Of two fields with one name the later shape stands in the place of the earlier. -/
def struct (closed : Bool) (fields : List (String × Schema)) : Build Schema := do
  let tag ← newTag
  let shapes := fields.map fun (name, s) => (name, s.shape)
  of (.struct tag closed (entriesBy (· == ·) shapes))

def isStruct (s : Schema) : Bool := s.shape.fields?.isSome

def repr (s : Schema) : Except Fault String := do
  let type ← s.type.outerText
  .ok ((if s.isStruct then "StructHelper(" else "TypeHelper(") ++ String.ofList type ++ ")")

def structFields (s : Schema) : Except Fault TypeExpr.Layout := s.type.structFields

def optionalFields (s : Schema) : Except Fault (List String) := do
  let layout ← s.structFields
  .ok ((layout.filter fun (_, _, required) => !required).map (·.1))

def fieldReprs (s : Schema) : Except Fault (List (String × String)) :=
  match s.shape.fields? with
  | none => .error .noFields
  | some fields => fields.mapM fun (name, shape) => do
    let own ← of shape
    let text ← own.repr
    .ok (name, text)

end Schema
end Conform
