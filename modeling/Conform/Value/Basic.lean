import Conform.Scalar

/-!
Values: scalars, sequences, maps and sets. A set has one member at most: more
would be shown in the order of their hashes, which is no part of a value. A
container may occur inside itself. It then has a name, which `again` stands for
within it; the name tells it from every other container around it. Values handed
to operations are closed: opening a container puts the container in the place of
its name, so that every item taken out is closed too.
-/
namespace Conform

inductive Key where
  | scalar (s : Scalar)
  | tuple (items : List Key)

/-- Lists and plain maps can be changed, tuples and read-only maps cannot. -/
inductive Mutability where
  | mutable
  | frozen
  deriving DecidableEq, Repr

inductive Value where
  | scalar (s : Scalar)
  | seq (name : Option Nat) (kind : Mutability) (items : List Value)
  | map (name : Option Nat) (kind : Mutability) (entries : List (Key × Value))
  | set (member : Option Key)
  | again (name : Nat)

instance : Inhabited Key := ⟨.scalar .null⟩

instance : Inhabited Value := ⟨.scalar .null⟩

namespace Value

@[match_pattern] abbrev undefined : Value := .scalar .undefined
@[match_pattern] abbrev null : Value := .scalar .null
@[match_pattern] abbrev text (s : String) : Value := .scalar (.text s)
@[match_pattern] abbrev int (n : Int) : Value := .scalar (.int n)
@[match_pattern] abbrev list (items : List Value) : Value := .seq none .mutable items
@[match_pattern] abbrev tuple (items : List Value) : Value := .seq none .frozen items
@[match_pattern] abbrev dict (entries : List (Key × Value)) : Value := .map none .mutable entries

mutual

/-- Puts the closed value `c` in the place of the name `n`. -/
def fill (n : Nat) (c : Value) : Value → Value
  | .scalar s => .scalar s
  | .seq name kind items =>
    if name = some n then .seq name kind items else .seq name kind (fillItems n c items)
  | .map name kind entries =>
    if name = some n then .map name kind entries else .map name kind (fillEntries n c entries)
  | .set member => .set member
  | .again m => if m = n then c else .again m
termination_by structural v => v

def fillItems (n : Nat) (c : Value) : List Value → List Value
  | [] => []
  | v :: vs => fill n c v :: fillItems n c vs
termination_by structural vs => vs

def fillEntries (n : Nat) (c : Value) : List (Key × Value) → List (Key × Value)
  | [] => []
  | (k, v) :: es => (k, fill n c v) :: fillEntries n c es
termination_by structural es => es

end

end Value

inductive Container where
  | seq (items : List Value)
  | map (entries : List (Key × Value))

namespace Value

def items (name : Option Nat) (kind : Mutability) (xs : List Value) : List Value :=
  match name with
  | some n => fillItems n (.seq name kind xs) xs
  | none => xs

def entries (name : Option Nat) (kind : Mutability) (es : List (Key × Value)) :
    List (Key × Value) :=
  match name with
  | some n => fillEntries n (.map name kind es) es
  | none => es

def container? : Value → Option Container
  | .seq name kind xs => some (.seq (items name kind xs))
  | .map name kind es => some (.map (entries name kind es))
  | _ => none

def items? (v : Value) : Option (List Value) :=
  match v.container? with
  | some (.seq items) => some items
  | _ => none

def isUndefined : Value → Bool
  | .scalar .undefined => true
  | _ => false

def kind : Value → Kind
  | .scalar s => s.kind
  | _ => .object

def text? : Value → Option String
  | .scalar s => s.text?
  | _ => none

def truthy : Value → Bool
  | .scalar s => s.truthy
  | .seq _ _ items => !items.isEmpty
  | .map _ _ entries => !entries.isEmpty
  | .set member => member.isSome
  | .again _ => true

def typeName : Value → String
  | .scalar s => s.typeName
  | .seq _ .mutable _ => "list"
  | .seq _ .frozen _ => "tuple"
  | .map _ .mutable _ => "dict"
  | .map _ .frozen _ => "mappingproxy"
  | .set _ => "set"
  | .again _ => "object"

end Value

namespace Key

mutual

def toValue : Key → Value
  | .scalar s => .scalar s
  | .tuple ks => .tuple (toValues ks)
termination_by structural k => k

def toValues : List Key → List Value
  | [] => []
  | k :: ks => toValue k :: toValues ks
termination_by structural ks => ks

end

def text? : Key → Option String
  | .scalar s => s.text?
  | .tuple _ => none

mutual

def same : Key → Key → Bool
  | .scalar a, .scalar b => a.same b
  | .tuple as, .tuple bs => sameAll as bs
  | _, _ => false
termination_by structural k => k

def sameAll : List Key → List Key → Bool
  | [], [] => true
  | a :: as, b :: bs => same a b && sameAll as bs
  | _, _ => false
termination_by structural ks => ks

end

end Key

/-- Writes an entry: a key that is already there keeps its place and first form. -/
def putEntry {κ α : Type} (same : κ → κ → Bool) (entries : List (κ × α)) (key : κ) (value : α) :
    List (κ × α) :=
  match entries with
  | [] => [(key, value)]
  | (k, v) :: rest =>
    if same k key then (k, value) :: rest else (k, v) :: putEntry same rest key value

def entriesBy {κ α : Type} (same : κ → κ → Bool) (pairs : List (κ × α)) : List (κ × α) :=
  pairs.foldl (fun es (k, v) => putEntry same es k v) []

def entriesOf (pairs : List (Key × Value)) : List (Key × Value) := entriesBy Key.same pairs

def valueUnder? (entries : List (Key × Value)) (key : Key) : Option Value :=
  (entries.find? fun (k, _) => k.same key).map (·.2)

end Conform
