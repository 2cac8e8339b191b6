import Conform.TypeExpr.Basic

/-!
Types joined by bars. A bar joins plain types only, and anything else makes the
whole a union. Its members are not hashed; they are compared in turn. Two literal
types that meet in a comparison are, though, and so are the members of two
unions, so that comparing can fail where building alone does not.
-/
namespace Conform.TypeExpr

mutual

def clash? : TypeExpr → TypeExpr → Option String
  | .list s, .list t => clash? s t
  | .record s, .record t => clash? s t
  | .tuple ss, .tuple ts => clashItem? ss ts
  | .literal _ vs, .literal _ ws => Value.unhashableItem? (vs ++ ws)
  | .union ss, .union ts | .union ss, .pipe ts => unhashableItem? (ss ++ ts)
  | .pipe ss, .union ts | .pipe ss, .pipe ts => unhashableItem? (ss ++ ts)
  | _, _ => Option.none
termination_by structural t => t

/-- Items are compared up to the first two that differ. -/
def clashItem? : List TypeExpr → List TypeExpr → Option String
  | s :: ss, t :: ts => match clash? s t with
    | some type => some type
    | Option.none => if same s t then clashItem? ss ts else Option.none
  | _, _ => Option.none
termination_by structural ts => ts

end

def isAmong (kept : List TypeExpr) (t : TypeExpr) : Except Fault Bool :=
  match kept with
  | [] => .ok false
  | k :: ks => match clash? k t with
    | some type => .error (.unhashable type)
    | Option.none => if same k t then .ok true else isAmong ks t

def notAmong (kept : List TypeExpr) : List TypeExpr → Except Fault (List TypeExpr)
  | [] => .ok []
  | t :: ts => do
    let found ← isAmong kept t
    let rest ← notAmong kept ts
    .ok (if found then rest else t :: rest)

def needsUnion : TypeExpr → Bool
  | .union _ | .literal .. => true
  | _ => false

/-- Two types with a bar between them. What the right one adds comes last. -/
def join (s t : TypeExpr) : Except Fault TypeExpr :=
  if s.needsUnion || t.needsUnion then unionOf [s, t]
  else do
    match ← notAmong s.members t.members with
    | [] => .ok s
    | added => .ok (.pipe (s.members ++ added))

def pipeOf : List TypeExpr → Except Fault TypeExpr
  | [] => .ok (.pipe [])
  | t :: ts => ts.foldlM join t

end Conform.TypeExpr
