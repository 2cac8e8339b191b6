import Conform.Value.Display

/-!
Values written as compact JSON text. Undefined entries of maps are left out and
undefined items of sequences become null. Two dialects share the writer: the
strict one refuses what JSON cannot say, the descriptive one shows it somehow.
Which error is met first follows the text: entry by entry, keys before values.
A container inside itself is noticed before anything is written.
-/
namespace Conform.Json

inductive EncodeError where
  | undefined
  | circular
  | notFinite
  | integer
  | key (type : String)
  | leaf (type : String)
  deriving DecidableEq, Repr

def EncodeError.message : EncodeError → String
  | .undefined => "undefined is not JSON serializable"
  | .circular => "Circular reference detected"
  | .notFinite => "Out of range float values are not JSON compliant"
  | .integer => integerLimitText ++ integerLimitAdvice
  | .key type => "keys must be str, int, float, bool or None, not " ++ type
  | .leaf type => s!"Object of type {type} is not JSON serializable"

structure Dialect where
  float : Binary64 → Except EncodeError (List Char)
  floatKey : Binary64 → Except EncodeError (List Char)
  leaf : Value → Except EncodeError (List Char)

def floatText : Binary64 → List Char
  | .nan => "NaN".toList
  | .infinite false => "Infinity".toList
  | .infinite true => "-Infinity".toList
  | x => x.text

def finiteFloat (allowNaN : Bool) (x : Binary64) : Except EncodeError (List Char) :=
  if allowNaN || x.isFinite then .ok (floatText x) else .error .notFinite

def integer (n : Int) : Except EncodeError (List Char) :=
  match integerText n with
  | .ok text => .ok text
  | .error _ => .error .integer

def boolText (b : Bool) : List Char := (if b then "true" else "false").toList

def datedLeaf : Value → Except EncodeError (List Char)
  | .scalar (.date d) => .ok (Text.jsonString d.iso.toList)
  | .scalar (.clock t) => .ok (Text.jsonString t.iso.toList)
  | .scalar (.moment m) => .ok (Text.jsonString m.iso.toList)
  | v => .error (.leaf v.typeName)

def strict (allowNaN : Bool) : Dialect where
  float := finiteFloat allowNaN
  floatKey := finiteFloat allowNaN
  leaf := datedLeaf

def exponentThreshold : Nat := Nat.pow 10 21

/-- A whole number is shown without a fraction, and what is not finite as null. -/
def shownFloat (x : Binary64) : List Char :=
  match x with
  | .finite .. => match x.toInt? with
    | some n =>
      if n.natAbs < exponentThreshold then
        (if n < 0 then '-' :: Nat.toDigits 10 n.natAbs else Nat.toDigits 10 n.natAbs)
      else x.text
    | none => x.text
  | _ => "null".toList

def shownLeaf (v : Value) : Except EncodeError (List Char) :=
  match v.display with
  | .ok text => .ok (Text.jsonString text)
  | .error _ => .error .integer

def descriptive : Dialect where
  float := fun x => .ok (shownFloat x)
  floatKey := fun x => .ok (floatText x)
  leaf := shownLeaf

def writeScalar (d : Dialect) (a : Scalar) : Except EncodeError (List Char) :=
  match a.plain with
  | .undefined | .null => .ok "null".toList
  | .bool b => .ok (boolText b)
  | .int n => integer n
  | .float x => d.float x
  | .text s => .ok (Text.jsonString s.toList)
  | _ => d.leaf (.scalar a)

/-- The types of dates and times are named in full in this place. -/
def keyTypeName : Scalar → String
  | .date _ => "datetime.date"
  | .clock _ => "datetime.time"
  | .moment _ => "datetime.datetime"
  | a => a.typeName

def keyText (d : Dialect) : Key → Except EncodeError (List Char)
  | .tuple _ => .error (.key "tuple")
  | .scalar a => match a.plain with
    | .null => .ok "null".toList
    | .bool b => .ok (boolText b)
    | .int n => integer n
    | .float x => d.floatKey x
    | .text s => .ok s.toList
    | _ => .error (.key (keyTypeName a))

def commaSeparated (parts : List (List Char)) : List Char := List.intercalate [','] parts

mutual

def write (d : Dialect) : Value → Except EncodeError (List Char)
  | .scalar a => writeScalar d a
  | .seq _ _ items => do
    let parts ← writeItems d items
    .ok (enclosed ['['] [']'] (commaSeparated parts))
  | .map _ _ entries => do
    let parts ← writeEntries d entries
    .ok (enclosed ['\x7b'] ['\x7d'] (commaSeparated parts))
  | .set member => d.leaf (.set member)
  | .again _ => .error .circular
termination_by structural v => v

def writeItems (d : Dialect) : List Value → Except EncodeError (List (List Char))
  | [] => .ok []
  | v :: vs => do
    let part ← write d v
    let parts ← writeItems d vs
    .ok (part :: parts)
termination_by structural vs => vs

def writeEntries (d : Dialect) : List (Key × Value) → Except EncodeError (List (List Char))
  | [] => .ok []
  | (k, v) :: es =>
    if v.isUndefined then writeEntries d es
    else do
      let key ← keyText d k
      let value ← write d v
      let parts ← writeEntries d es
      .ok ((Text.jsonString key ++ ':' :: value) :: parts)
termination_by structural es => es

end

inductive Obstacle where
  | tooDeep
  | circular
  deriving DecidableEq, Repr

mutual

/-- The first obstacle from left to right, with room for so many containers. -/
def obstacle? (room : Nat) : Value → Option Obstacle
  | .seq _ _ items => match room with
    | 0 => some .tooDeep
    | room + 1 => obstacleItems? room items
  | .map _ _ entries => match room with
    | 0 => some .tooDeep
    | room + 1 => obstacleEntries? room entries
  | .again _ => some .circular
  | _ => none
termination_by structural v => v

def obstacleItems? (room : Nat) : List Value → Option Obstacle
  | [] => none
  | v :: vs => match obstacle? room v with
    | some o => some o
    | none => obstacleItems? room vs
termination_by structural vs => vs

def obstacleEntries? (room : Nat) : List (Key × Value) → Option Obstacle
  | [] => none
  | (_, v) :: es => match obstacle? room v with
    | some o => some o
    | none => obstacleEntries? room es
termination_by structural es => es

end

/-- The JSON text of a value, or why it has none. Only nesting is a fault. -/
def encode (allowNaN : Bool) (v : Value) : Except Fault (Except EncodeError String) :=
  if v.isUndefined then .ok (.error .undefined)
  else match obstacle? nestingLimit v with
    | some .tooDeep => .error .tooDeep
    | some .circular => .ok (.error .circular)
    | none => .ok ((write (strict allowNaN) v).map String.ofList)

/-- How diagnostics quote a value: as JSON where that can be done. -/
def describe (v : Value) : Except Fault String :=
  if v.isUndefined then .ok "undefined"
  else match obstacle? nestingLimit v with
    | some .tooDeep => .error .tooDeep
    | some .circular => v.repr.map String.ofList
    | none => match write descriptive v with
      | .ok text => .ok (String.ofList text)
      | .error _ => v.repr.map String.ofList

end Conform.Json
