import Conform.Binary64.Text
import Conform.Fault
import Conform.Moment
import Conform.Text.Quoted

/-!
Values without parts: their kinds, when two are equal, and how they are shown.
Numbers are equal by value across their types, truth values count as 0 and 1,
and a transparent symbol counts as the payload behind it.
-/
namespace Conform

inductive Payload where
  | int (n : Int)
  | text (s : String)
  | float (x : Binary64)
  deriving DecidableEq

/-- A member of a named family of constants. A transparent one is compared and
    written as its payload; the others stand for themselves alone. -/
structure Symbol where
  family : String
  name : String
  payload : Payload
  transparent : Bool
  deriving DecidableEq

inductive Scalar where
  | undefined
  | null
  | bool (b : Bool)
  | int (n : Int)
  | float (x : Binary64)
  | text (s : String)
  | symbol (s : Symbol)
  | date (d : Date)
  | clock (t : Clock)
  | moment (m : Moment)
  | bytes (b : List UInt8)
  | token (name : String)
  deriving DecidableEq

inductive Kind where
  | undefined
  | null
  | boolean
  | symbol
  | string
  | number
  | bigint
  | object
  deriving DecidableEq, Repr

def Kind.name : Kind → String
  | .undefined => "undefined"
  | .null => "null"
  | .boolean => "boolean"
  | .symbol => "symbol"
  | .string => "string"
  | .number => "number"
  | .bigint => "bigint"
  | .object => "object"

def maxSafeInteger : Nat := Nat.pow 2 53 - 1

def integerText (n : Int) : Except Fault (List Char) :=
  if n.natAbs < Nat.pow 10 digitLimit then
    .ok (if n < 0 then '-' :: Nat.toDigits 10 n.natAbs else Nat.toDigits 10 n.natAbs)
  else .error .unwritableInteger

inductive Number where
  | int (n : Int)
  | float (x : Binary64)

def Number.same : Number → Number → Bool
  | .int m, .int n => m == n
  | .int m, .float x | .float x, .int m => x.sameInt m
  | .float x, .float y => x.same y

def Number.atLeast (n : Int) : Number → Bool
  | .int m => decide (n ≤ m)
  | .float x => x.atLeastInt n

def Payload.shown : Payload → Except Fault (List Char)
  | .int n => integerText n
  | .text s => .ok (Text.quoted s.toList)
  | .float x => .ok x.text

namespace Symbol

def qualifiedName (s : Symbol) : String := s.family ++ "." ++ s.name

def repr (s : Symbol) : Except Fault (List Char) := do
  let payload ← s.payload.shown
  .ok ('<' :: s.qualifiedName.toList ++ [':', ' '] ++ payload ++ ['>'])

/-- Integer symbols read as their number, all others as their name. -/
def display (s : Symbol) : Except Fault (List Char) :=
  match s.transparent, s.payload with
  | true, .int n => integerText n
  | _, _ => .ok s.qualifiedName.toList

end Symbol

namespace Scalar

def kind : Scalar → Kind
  | .undefined => .undefined
  | .null => .null
  | .bool _ => .boolean
  | .symbol _ => .symbol
  | .text _ => .string
  | .float _ => .number
  | .int n => if n.natAbs ≤ maxSafeInteger then .number else .bigint
  | _ => .object

def plain : Scalar → Scalar
  | .symbol ⟨_, _, .int n, true⟩ => .int n
  | .symbol ⟨_, _, .text s, true⟩ => .text s
  | .symbol ⟨_, _, .float x, true⟩ => .float x
  | a => a

def number? (a : Scalar) : Option Number :=
  match a.plain with
  | .bool b => some (.int (if b then 1 else 0))
  | .int n => some (.int n)
  | .float x => some (.float x)
  | _ => none

def text? (a : Scalar) : Option String :=
  match a.plain with
  | .text s => some s
  | _ => none

/-- Equality of scalars. A token or a `nan` read twice is two different things. -/
def same (a b : Scalar) : Bool :=
  match a.number?, b.number? with
  | some m, some n => m.same n
  | some _, none | none, some _ => false
  | none, none =>
    match a.text?, b.text? with
    | some s, some t => s == t
    | some _, none | none, some _ => false
    | none, none =>
      match a, b with
      | .token _, .token _ => false
      | .clock t, .clock u => t.same u
      | .moment m, .moment n => m.same n
      | a, b => decide (a = b)

def truthy (a : Scalar) : Bool :=
  match a.number?, a.text? with
  | some n, _ => !n.same (.int 0)
  | none, some s => !s.isEmpty
  | none, none => match a with
    | .undefined | .null => false
    | .bytes b => !b.isEmpty
    | _ => true

def typeName : Scalar → String
  | .undefined => "Undefined"
  | .null => "NoneType"
  | .bool _ => "bool"
  | .int _ => "int"
  | .float _ => "float"
  | .text _ => "str"
  | .symbol s => s.family
  | .date _ => "date"
  | .clock _ => "time"
  | .moment _ => "datetime"
  | .bytes _ => "bytes"
  | .token _ => "Opaque"

def repr : Scalar → Except Fault (List Char)
  | .undefined => .ok "UNDEFINED".toList
  | .null => .ok "None".toList
  | .bool b => .ok (if b then "True" else "False").toList
  | .int n => integerText n
  | .float x => .ok x.text
  | .text s => .ok (Text.quoted s.toList)
  | .symbol s => s.repr
  | .date d => .ok d.repr.toList
  | .clock t => .ok t.repr.toList
  | .moment m => .ok m.repr.toList
  | .bytes b => .ok (Text.quotedBytes b)
  | .token name => .ok ("Opaque(" ++ name ++ ")").toList

/-- The plain form: text as it is, times in their standard notation. -/
def display : Scalar → Except Fault (List Char)
  | .undefined => .ok "Undefined.UNDEFINED".toList
  | .text s => .ok s.toList
  | .symbol s => s.display
  | .date d => .ok d.iso.toList
  | .clock t => .ok t.iso.toList
  | .moment m => .ok (m.isoWith " ").toList
  | a => a.repr

end Scalar
end Conform
