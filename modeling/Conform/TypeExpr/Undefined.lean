import Conform.TypeExpr.Basic

/-!
Optional fields. A type that admits the undefined value makes its field
optional, and the field is then typed without it. The layout of a struct type
lists its fields in order, each with its type and whether it is required.
-/
namespace Conform.TypeExpr

mutual

def admitsUndefined : TypeExpr → Bool
  | .undefined => true
  | .union ts | .pipe ts => someAdmitUndefined ts
  | .literal _ vs => vs.any Value.isUndefined
  | _ => false
termination_by structural t => t

def someAdmitUndefined : List TypeExpr → Bool
  | [] => false
  | t :: ts => admitsUndefined t || someAdmitUndefined ts
termination_by structural ts => ts

end

def isOnlyUndefined : TypeExpr → Bool
  | .undefined => true
  | .literal _ vs => vs.all Value.isUndefined
  | _ => false

mutual

def stripUndefined : TypeExpr → Except Fault TypeExpr
  | .union ts => do
    let kept ← stripMembers ts
    if kept.isEmpty then .ok (.union ts) else oneOf kept
  | .pipe ts => do
    let kept ← stripMembers ts
    if kept.isEmpty then .ok (.pipe ts) else oneOf kept
  | .literal tag vs =>
    let kept := vs.filter fun v => !v.isUndefined
    .ok (if kept.isEmpty then .literal tag vs else literalOf tag kept)
  | t => .ok t
termination_by structural t => t

def stripMembers : List TypeExpr → Except Fault (List TypeExpr)
  | [] => .ok []
  | t :: ts =>
    if t.isOnlyUndefined then stripMembers ts
    else do
      let kept ← stripUndefined t
      let rest ← stripMembers ts
      .ok (kept :: rest)
termination_by structural ts => ts

end

abbrev Layout := List (String × TypeExpr × Bool)

def Layout.find? (layout : Layout) (name : String) : Option (TypeExpr × Bool) :=
  (List.find? (fun (n, _) => n == name) layout).map (·.2)

def layoutField (name : String) (type : TypeExpr) : Except Fault (String × TypeExpr × Bool) :=
  if type.admitsUndefined then do
    let stripped ← type.stripUndefined
    .ok (name, stripped, false)
  else .ok (name, type, true)

def structOf (tag : Nat) (fields : List (String × TypeExpr)) : Except Fault TypeExpr := do
  let layout ← fields.mapM fun (name, type) => layoutField name type
  .ok (.struct tag layout)

/-- The fields of the right layout in place, typed as on the left where both have one,
    and then the other fields of the left one. -/
def mergeLayouts (left right : Layout) : Layout :=
  (right.map fun (name, own) => (name, (Layout.find? left name).getD own))
    ++ left.filter fun (name, _) => (Layout.find? right name).isNone

/-- Two struct types are flattened into one; otherwise the left type stands. -/
def merge (tag : Nat) (left right : TypeExpr) : TypeExpr :=
  match left, right with
  | .struct _ ls, .struct _ rs => .struct tag (mergeLayouts ls rs)
  | _, _ => left

def layout? : TypeExpr → Option Layout
  | .struct _ fields => some fields
  | _ => Option.none

def structFields (t : TypeExpr) : Except Fault Layout :=
  match t.layout? with
  | some layout => .ok layout
  | Option.none => .error .notStruct

end Conform.TypeExpr
