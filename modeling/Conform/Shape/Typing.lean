import Conform.Shape.Basic
import Conform.TypeExpr.Text

/-!
The type of a shape, derived from the types of its parts. Where a shape cannot
be built, this is where it shows: parts first, from left to right.
-/
namespace Conform

def AtomicKind.type : AtomicKind → TypeExpr
  | .string => .text
  | .number => .union [.int, .float]
  | .boolean => .bool
  | .undefined => .undefined
  | .bigint => .int
  | .symbol => .symbol

namespace Shape

mutual

def typeExpr : Shape → Except Fault TypeExpr
  | .atomic k => .ok k.type
  | .literal tag candidates => do
    let _ ← expectation candidates
    .ok (if candidates.isEmpty then .any else TypeExpr.literalOf tag candidates)
  | .optional base => do
    let t ← typeExpr base
    TypeExpr.unionOf [t, .undefined]
  | .nullable base => do
    let t ← typeExpr base
    TypeExpr.unionOf [t, .none]
  | .array item => do
    let t ← typeExpr item
    .ok (.list t)
  | .record item => do
    let t ← typeExpr item
    .ok (.record t)
  | .tuple items => do
    let ts ← typeExprs items
    .ok (.tuple ts)
  | .either left right => do
    let s ← typeExpr left
    let t ← typeExpr right
    TypeExpr.oneOf [s, t]
  | .anyOf alternatives => do
    if alternatives.isEmpty then .error .emptyUnion
    else do
      let ts ← typeExprs alternatives
      TypeExpr.oneOf ts
  | .both left right => do
    let t ← typeExpr left
    let _ ← typeExpr right
    .ok t
  | .merge tag left right => do
    let s ← typeExpr left
    let t ← typeExpr right
    .ok (TypeExpr.merge tag s t)
  | .refined base _ => typeExpr base
  | .custom _ type => .ok type
  | .struct tag _ fields => do
    let types ← fieldTypes fields
    TypeExpr.structOf tag types
termination_by structural s => s

def typeExprs : List Shape → Except Fault (List TypeExpr)
  | [] => .ok []
  | s :: ss => do
    let t ← typeExpr s
    let ts ← typeExprs ss
    .ok (t :: ts)
termination_by structural ss => ss

def fieldTypes : List (String × Shape) → Except Fault (List (String × TypeExpr))
  | [] => .ok []
  | (name, s) :: fields => do
    let t ← typeExpr s
    let ts ← fieldTypes fields
    .ok ((name, t) :: ts)
termination_by structural fields => fields

end

end Shape
end Conform
