import Conform.Value.Basic

/-!
Equality of values by content. A list never equals a tuple, while plain and
read-only maps are compared alike, whatever the order of their entries.
Comparison follows a bounded number of containers, since two values that
contain themselves can be compared without end. It stops at the first parts
that differ, so the order in which parts are met decides whether it gets so deep.
-/
namespace Conform

def allSame (same : Value → Value → Except Fault Bool) :
    List Value → List Value → Except Fault Bool
  | [], [] => .ok true
  | v :: vs, w :: ws => do
    if ← same v w then allSame same vs ws else .ok false
  | _, _ => .ok false

def allFound (same : Value → Value → Except Fault Bool) (others : List (Key × Value)) :
    List (Key × Value) → Except Fault Bool
  | [] => .ok true
  | (k, v) :: rest =>
    match valueUnder? others k with
    | none => .ok false
    | some w => do
      if ← same v w then allFound same others rest else .ok false

def sameMember : Option Key → Option Key → Bool
  | none, none => true
  | some k, some l => k.same l
  | _, _ => false

namespace Value

/-- Lists of different lengths differ at once, tuples only after the items they share.
    The entries of the left map are looked up in the right one, but those of a read-only
    map on the right are looked up in the left one. -/
def sameUpTo : Nat → Value → Value → Except Fault Bool
  | room, .seq m k xs, .seq n l ys =>
    if k ≠ l ∨ k = .mutable ∧ xs.length ≠ ys.length then .ok false
    else match room with
      | 0 => .error .tooDeep
      | room + 1 => allSame (sameUpTo room) (items m k xs) (items n l ys)
  | room, .map m k es, .map n l fs =>
    if es.length ≠ fs.length then .ok false
    else match room with
      | 0 => .error .tooDeep
      | room + 1 => match l with
        | .mutable => allFound (sameUpTo room) (entries n l fs) (entries m k es)
        | .frozen => allFound (sameUpTo room) (entries m k es) (entries n l fs)
  | _, .scalar a, .scalar b => .ok (a.same b)
  | _, .set m, .set n => .ok (sameMember m n)
  | _, _, _ => .ok false

def same (v w : Value) : Except Fault Bool := sameUpTo nestingLimit v w

end Value
end Conform
