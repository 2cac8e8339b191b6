/-!
Double precision numbers as exact data: a sign, a significand of at most 53
bits and an exponent of two, in the one canonical form each number has. There
is no arithmetic here, only rounding of an exact rational to the nearest
number. Ties go to the even significand, and what is too large is infinite.
-/
namespace Conform

/-- The significand fills 53 bits unless the exponent is already the least one. -/
def Canonical (significand : Nat) (exponent : Int) : Prop :=
  significand < Nat.pow 2 53 ∧ -1074 ≤ exponent ∧ exponent ≤ 971 ∧
    (Nat.pow 2 52 ≤ significand ∨ exponent = -1074)

instance (significand : Nat) (exponent : Int) : Decidable (Canonical significand exponent) :=
  inferInstanceAs (Decidable (_ ∧ _ ∧ _ ∧ _))

inductive Binary64 where
  | nan
  | infinite (negative : Bool)
  | finite (negative : Bool) (significand : Nat) (exponent : Int)
      (canonical : Canonical significand exponent)
  deriving DecidableEq

namespace Binary64

def zero (negative : Bool) : Binary64 := .finite negative 0 (-1074) (by decide)

def toRat? : Binary64 → Option Rat
  | .finite false m e _ => some ((m : Rat) * (2 : Rat) ^ e)
  | .finite true m e _ => some (-((m : Rat) * (2 : Rat) ^ e))
  | _ => none

def isFinite : Binary64 → Bool
  | .finite .. => true
  | _ => false

def toInt? (x : Binary64) : Option Int :=
  match x.toRat? with
  | some q => if q.den = 1 then some q.num else none
  | none => none

/-- Equality of numbers: both zeros are one number, and `nan` is none. -/
def same : Binary64 → Binary64 → Bool
  | .infinite s, .infinite t => s == t
  | x, y => match x.toRat?, y.toRat? with
    | some p, some q => p == q
    | _, _ => false

def sameInt (x : Binary64) (n : Int) : Bool := x.toRat? == some (n : Rat)

def atLeastInt (n : Int) : Binary64 → Bool
  | .nan => false
  | .infinite negative => !negative
  | x => match x.toRat? with
    | some q => decide ((n : Rat) ≤ q)
    | none => false

def isWithin (limit : Nat) (x : Binary64) : Bool :=
  match x.toRat? with
  | some q => decide (-(limit : Rat) ≤ q ∧ q ≤ limit)
  | none => false

/-- The nearest integer, and the even one of two equally near. -/
def roundHalfEven (x : Rat) : Int :=
  let low := x.floor
  let rest := x - low
  if rest < 1 / 2 then low else if 1 / 2 < rest then low + 1 else low + low % 2

/-- The exponent of the last of the 53 binary places that `x` is rounded to. -/
def lastPlace (x : Rat) : Int :=
  let k : Int := (x.num.natAbs.log2 : Int) - (x.den.log2 : Int)
  max (-1074) (if x < (2 : Rat) ^ k then k - 53 else k - 52)

/-- A significand that does not fit at this exponent is past the largest number. -/
def ofParts (negative : Bool) (significand : Nat) (exponent : Int) : Binary64 :=
  if fits : Canonical significand exponent then .finite negative significand exponent fits
  else .infinite negative

def nearest (negative : Bool) (magnitude : Rat) : Binary64 :=
  let e := lastPlace magnitude
  let m := (roundHalfEven (magnitude / (2 : Rat) ^ e)).toNat
  if m = Nat.pow 2 53 then ofParts negative (Nat.pow 2 52) (e + 1) else ofParts negative m e

def ofInt (n : Int) : Binary64 := nearest (n < 0) (n.natAbs : Rat)

/-- The number nearest to `coefficient · 10 ^ exponent`. The two bounds keep the
    powers of ten in proportion to the coefficient: past them the magnitude is at
    least `10 ^ 310`, or below `10 ^ (-330)`. -/
def ofDecimal (negative : Bool) (coefficient : Nat) (exponent : Int) : Binary64 :=
  if coefficient = 0 then zero negative
  else if 310 ≤ exponent then .infinite negative
  else if exponent + (coefficient.log2 : Int) + 1 < -330 then zero negative
  else nearest negative ((coefficient : Rat) * (10 : Rat) ^ exponent)

end Binary64
end Conform
