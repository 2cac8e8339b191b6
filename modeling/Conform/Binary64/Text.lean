import Conform.Binary64.Basic

/-!
The decimal text of a double precision number: the fewest digits that read back
as the same number, and of those the nearest. Exponents from -4 to 15 are
written positionally, always with a point.
-/
namespace Conform.Binary64

structure Decimal where
  coefficient : Nat
  exponent : Int
  deriving DecidableEq, Repr

/-- The decimal reads as the number `m · 2 ^ e`. -/
def Decimal.Reads (d : Decimal) (m : Nat) (e : Int) : Bool :=
  match ofDecimal false d.coefficient d.exponent with
  | .finite false m' e' _ => m' == m && e' == e
  | _ => false

def firstPlace (x : Rat) : Int :=
  let guess := ((x.num.natAbs.log2 : Int) - (x.den.log2 : Int)) * 30103 / 100000
  if (10 : Rat) ^ (guess + 1) ≤ x then guess + 1
  else if (10 : Rat) ^ guess ≤ x then guess
  else if (10 : Rat) ^ (guess - 1) ≤ x then guess - 1
  else guess - 2

/-- Of the two neighbours of `m · 2 ^ e` with `places` digits, the one that reads back. -/
def neighbour? (m : Nat) (e : Int) (places : Nat) : Option Decimal :=
  let x := (m : Rat) * (2 : Rat) ^ e
  let q := firstPlace x - places + 1
  let scaled := x / (10 : Rat) ^ q
  let low : Decimal := ⟨scaled.floor.toNat, q⟩
  let high : Decimal := ⟨scaled.floor.toNat + 1, q⟩
  match low.Reads m e, high.Reads m e with
  | true, true => some ⟨(roundHalfEven scaled).toNat, q⟩
  | true, false => some low
  | false, true => some high
  | false, false => none

def exactDecimal (m : Nat) (e : Int) : Decimal :=
  if 0 ≤ e then ⟨m * Nat.pow 2 e.toNat, 0⟩ else ⟨m * Nat.pow 5 (-e).toNat, e⟩

/-- Seventeen digits always suffice, so the exact decimal is never needed in practice. -/
def shortest (m : Nat) (e : Int) : Decimal :=
  ((List.range 17).findSome? fun n => neighbour? m e (n + 1)).getD (exactDecimal m e)

def dropTrailingZeros (digits : List Char) : List Char :=
  (digits.reverse.dropWhile (· == '0')).reverse

/-- Exponents are written with a sign and at least two digits. -/
def exponentText (e : Int) : List Char :=
  let digits := Nat.toDigits 10 e.natAbs
  'e' :: (if e < 0 then '-' else '+') :: (if digits.length < 2 then '0' :: digits else digits)

def layout (digits : List Char) (first : Int) : List Char :=
  if -4 ≤ first ∧ first < 0 then
    '0' :: '.' :: (List.replicate (-first - 1).toNat '0' ++ digits)
  else if 0 ≤ first ∧ first < 16 then
    let whole := first.toNat + 1
    if digits.length ≤ whole then
      digits ++ List.replicate (whole - digits.length) '0' ++ ['.', '0']
    else digits.take whole ++ '.' :: digits.drop whole
  else
    match digits with
    | [] => []
    | [d] => d :: exponentText first
    | d :: rest => d :: '.' :: (rest ++ exponentText first)

def magnitudeText (m : Nat) (e : Int) : List Char :=
  if m = 0 then ['0', '.', '0']
  else
    let d := shortest m e
    let digits := Nat.toDigits 10 d.coefficient
    layout (dropTrailingZeros digits) (d.exponent + digits.length - 1)

def signed (negative : Bool) (text : List Char) : List Char :=
  if negative then '-' :: text else text

def text : Binary64 → List Char
  | .nan => "nan".toList
  | .infinite negative => signed negative "inf".toList
  | .finite negative m e _ => signed negative (magnitudeText m e)

def splitDigits (cs : List Char) : List Char × List Char :=
  (cs.takeWhile Char.isDigit, cs.dropWhile Char.isDigit)

def digitsValue (ds : List Char) : Nat := Nat.ofDigitChars 10 ds 0

def splitSign : List Char → Bool × List Char
  | '-' :: rest => (true, rest)
  | '+' :: rest => (false, rest)
  | cs => (false, cs)

def exponent? : List Char → Option Int
  | [] => some 0
  | c :: rest =>
    if c == 'e' || c == 'E' then
      match splitSign rest with
      | (negative, rest) => match splitDigits rest with
        | ([], _) => none
        | (ds, []) => some (if negative then -(digitsValue ds : Int) else digitsValue ds)
        | _ => none
    else none

def ofText? (cs : List Char) : Option Binary64 :=
  let (negative, body) := splitSign cs
  let word := String.ofList (body.map Char.toLower)
  if word == "nan" then some .nan
  else if word == "inf" || word == "infinity" then some (.infinite negative)
  else
    let (whole, rest) := splitDigits body
    let (fraction, rest) := match rest with
      | '.' :: rest => splitDigits rest
      | _ => ([], rest)
    if (whole ++ fraction).isEmpty then none
    else (exponent? rest).map fun e =>
      ofDecimal negative (digitsValue (whole ++ fraction)) (e - fraction.length)

end Conform.Binary64
