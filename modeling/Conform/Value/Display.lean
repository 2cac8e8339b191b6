import Conform.Value.Basic

/-!
The form of values that is meant for reading back by eye. A container inside
itself is shown as an ellipsis in its own brackets. Long integers cannot be
shown, nor what is nested too deeply.
-/
namespace Conform

def separated (parts : List (List Char)) : List Char := List.intercalate [',', ' '] parts

def enclosed (opening closing : List Char) (inner : List Char) : List Char :=
  opening ++ inner ++ closing

def tupleText : List (List Char) → List Char
  | [part] => enclosed ['('] [',', ')'] part
  | parts => enclosed ['('] [')'] (separated parts)

namespace Key

mutual

def repr : Key → Except Fault (List Char)
  | .scalar s => s.repr
  | .tuple ks => tupleText <$> reprs ks
termination_by structural k => k

def reprs : List Key → Except Fault (List (List Char))
  | [] => .ok []
  | k :: ks => do
    let part ← repr k
    let parts ← reprs ks
    .ok (part :: parts)
termination_by structural ks => ks

end

def display : Key → Except Fault (List Char)
  | .scalar s => s.display
  | k => k.repr

end Key

namespace Value

def brackets : Value → List Char × List Char
  | .seq _ .mutable _ => (['['], [']'])
  | .seq _ .frozen _ => (['('], [')'])
  | .map _ .frozen _ => ("mappingproxy(".toList ++ ['\x7b'], ['\x7d', ')'])
  | _ => (['\x7b'], ['\x7d'])

def ellipsis (v : Value) : List Char := enclosed v.brackets.1 v.brackets.2 ['.', '.', '.']

def bracketed (v : Value) (parts : List (List Char)) : List Char :=
  match v with
  | .seq _ .frozen _ => tupleText parts
  | v => enclosed v.brackets.1 v.brackets.2 (separated parts)

/-- The named containers around a place, each with what is shown of it there. -/
abbrev Around := List (Nat × List Char)

def Around.find? (around : Around) (name : Option Nat) : Option (List Char) :=
  name.bind fun n => List.lookup n around

def Around.add (around : Around) (name : Option Nat) (v : Value) : Around :=
  match name with
  | some n => (n, v.ellipsis) :: around
  | none => around

mutual

def reprIn (room : Nat) (around : Around) : Value → Except Fault (List Char)
  | .scalar s => s.repr
  | .set none => .ok "set()".toList
  | .set (some k) => enclosed ['\x7b'] ['\x7d'] <$> k.repr
  | .again n => .ok ((around.find? (some n)).getD [])
  | .seq name kind xs => match around.find? name, room with
    | some short, _ => .ok short
    | none, 0 => .error .tooDeep
    | none, room + 1 => do
      let v := Value.seq name kind xs
      let parts ← reprItems room (around.add name v) xs
      .ok (v.bracketed parts)
  | .map name kind es => match around.find? name, room with
    | some short, _ => .ok short
    | none, 0 => .error .tooDeep
    | none, room + 1 => do
      let v := Value.map name kind es
      let parts ← reprEntries room (around.add name v) es
      .ok (v.bracketed parts)
termination_by structural v => v

def reprItems (room : Nat) (around : Around) : List Value → Except Fault (List (List Char))
  | [] => .ok []
  | v :: vs => do
    let part ← reprIn room around v
    let parts ← reprItems room around vs
    .ok (part :: parts)
termination_by structural vs => vs

def reprEntries (room : Nat) (around : Around) :
    List (Key × Value) → Except Fault (List (List Char))
  | [] => .ok []
  | (k, v) :: es => do
    let key ← k.repr
    let value ← reprIn room around v
    let parts ← reprEntries room around es
    .ok ((key ++ ':' :: ' ' :: value) :: parts)
termination_by structural es => es

end

def repr (v : Value) : Except Fault (List Char) := reprIn nestingLimit [] v

/-- The plain form. A read-only map looks like the map it protects. -/
def display : Value → Except Fault (List Char)
  | .scalar s => s.display
  | .map name .frozen es => do
    let parts ← reprEntries nestingLimit (Around.add [] name (.map name .frozen es)) es
    .ok ((Value.dict es).bracketed parts)
  | v => v.repr

end Value
end Conform
