import Conform.Value.Basic

/-!
When two values are one and the same, part by part. This is finer than equality
by content: it tells numbers of different types apart, and what equals nothing,
not even itself, is still identical to itself.
-/
namespace Conform

namespace Key

mutual

def identical : Key → Key → Bool
  | .scalar a, .scalar b => decide (a = b)
  | .tuple ks, .tuple ls => identicalAll ks ls
  | _, _ => false
termination_by structural k => k

def identicalAll : List Key → List Key → Bool
  | [], [] => true
  | k :: ks, l :: ls => identical k l && identicalAll ks ls
  | _, _ => false
termination_by structural ks => ks

end

end Key

namespace Value

def identicalMember : Option Key → Option Key → Bool
  | none, none => true
  | some k, some l => k.identical l
  | _, _ => false

mutual

def identical : Value → Value → Bool
  | .scalar a, .scalar b => decide (a = b)
  | .seq m j vs, .seq n k ws => decide (m = n ∧ j = k) && identicalItems vs ws
  | .map m j es, .map n k fs => decide (m = n ∧ j = k) && identicalEntries es fs
  | .set k, .set l => identicalMember k l
  | .again m, .again n => decide (m = n)
  | _, _ => false
termination_by structural v => v

def identicalItems : List Value → List Value → Bool
  | [], [] => true
  | v :: vs, w :: ws => identical v w && identicalItems vs ws
  | _, _ => false
termination_by structural vs => vs

def identicalEntries : List (Key × Value) → List (Key × Value) → Bool
  | [], [] => true
  | (k, v) :: es, (l, w) :: fs => k.identical l && identical v w && identicalEntries es fs
  | _, _ => false
termination_by structural es => es

end

end Value
end Conform
