import Conform.Value.Equality
import Conform.Value.Identity

/-!
Type expressions that describe what a shape accepts. A union never holds another
union, and of members that are equal only the first is kept. Unions are equal as
sets, literal types as sets of values with their types, and a struct type equals
only itself, which its tag decides. Literal types have tags too, since a value
that equals nothing else is still itself where one tag is met twice. A union
hashes its members and does nothing else where it cannot: a literal type over a
value without a hash is not allowed in one, though its members could be told
apart by comparing them in turn, as types joined by bars are.
-/
namespace Conform

/-- A class without a type expression of its own, by its name and the place it is defined in,
    which the built-in ones do not show. A family of symbols is shown by its name alone. -/
structure ClassName where
  home : Option String
  name : String
  isFamily : Bool
  deriving DecidableEq, Repr

def ClassName.qualified (cls : ClassName) : String :=
  match cls.home with
  | some home => home ++ "." ++ cls.name
  | none => cls.name

inductive TypeExpr where
  | text
  | int
  | float
  | bool
  | none
  | any
  | undefined
  | symbol
  | named (cls : ClassName)
  | list (item : TypeExpr)
  | record (item : TypeExpr)
  | tuple (items : List TypeExpr)
  | literal (tag : Nat) (values : List Value)
  | union (members : List TypeExpr)
  | pipe (members : List TypeExpr)
  | struct (tag : Nat) (fields : List (String × TypeExpr × Bool))

namespace Value

mutual

/-- The type of the first part that cannot be hashed. -/
def unhashable? : Value → Option String
  | .scalar _ => none
  | .seq _ .frozen items => unhashableItem? items
  | v => some v.typeName
termination_by structural v => v

def unhashableItem? : List Value → Option String
  | [] => none
  | v :: vs => match unhashable? v with
    | some type => some type
    | none => unhashableItem? vs
termination_by structural vs => vs

end

/-- Equal values of one type, as literal types tell them apart. Types of different kinds
    may share a name. -/
def sameTyped (v w : Value) : Bool :=
  v.typeName == w.typeName && decide (v.kind = w.kind) && match v.same w with
    | .ok equal => equal
    | .error _ => false

end Value

def keepFirst {α : Type} (same : α → α → Bool) (xs : List α) : List α :=
  xs.foldl (fun kept x => if kept.any fun k => same k x then kept else kept ++ [x]) []

namespace TypeExpr

/-- Values of literal types; `shared` says that the two types have one tag. -/
def sameCandidate (shared : Bool) (v w : Value) : Bool := shared && v.identical w || v.sameTyped w

def sameLiteral (shared : Bool) (vs ws : List Value) : Bool :=
  (vs.all fun v => ws.any (sameCandidate shared v))
    && ws.all fun w => vs.any fun v => sameCandidate shared v w

mutual

def identical : TypeExpr → TypeExpr → Bool
  | .text, .text | .int, .int | .float, .float | .bool, .bool => true
  | .none, .none | .any, .any | .undefined, .undefined | .symbol, .symbol => true
  | .named c, .named d => c == d
  | .list s, .list t => identical s t
  | .record s, .record t => identical s t
  | .tuple ss, .tuple ts => identicalItems ss ts
  | .literal m vs, .literal n ws => m == n && Value.identicalItems vs ws
  | .union ss, .union ts => identicalItems ss ts
  | .pipe ss, .pipe ts => identicalItems ss ts
  | .struct m fs, .struct n gs => m == n && identicalFields fs gs
  | _, _ => false
termination_by structural t => t

def identicalItems : List TypeExpr → List TypeExpr → Bool
  | [], [] => true
  | s :: ss, t :: ts => identical s t && identicalItems ss ts
  | _, _ => false
termination_by structural ts => ts

def identicalFields : List (String × TypeExpr × Bool) → List (String × TypeExpr × Bool) → Bool
  | [], [] => true
  | (m, s, p) :: fs, (n, t, q) :: gs =>
    m == n && identical s t && p == q && identicalFields fs gs
  | _, _ => false
termination_by structural fs => fs

end

mutual

def same : TypeExpr → TypeExpr → Bool
  | .text, .text | .int, .int | .float, .float | .bool, .bool => true
  | .none, .none | .any, .any | .undefined, .undefined | .symbol, .symbol => true
  | .named c, .named d => c == d
  | .list s, .list t => same s t
  | .record s, .record t => same s t
  | .tuple ss, .tuple ts => sameItems ss ts
  | .literal m vs, .literal n ws => sameLiteral (m == n) vs ws
  | .union ss, .union ts | .union ss, .pipe ts => allAmong ts ss && ts.all (someSame ss)
  | .pipe ss, .union ts | .pipe ss, .pipe ts => allAmong ts ss && ts.all (someSame ss)
  | .struct m fs, .struct n gs => m == n && identicalFields fs gs
  | _, _ => false
termination_by structural t => t

def sameItems : List TypeExpr → List TypeExpr → Bool
  | [], [] => true
  | s :: ss, t :: ts => same s t && sameItems ss ts
  | _, _ => false
termination_by structural ts => ts

def allAmong (ts : List TypeExpr) : List TypeExpr → Bool
  | [] => true
  | s :: ss => ts.any (same s) && allAmong ts ss
termination_by structural ts => ts

def someSame : List TypeExpr → TypeExpr → Bool
  | [], _ => false
  | s :: ss, t => same s t || someSame ss t
termination_by structural ts => ts

end

mutual

/-- The type of the first value in a literal type that cannot be hashed. Struct types
    are hashed as names. -/
def unhashable? : TypeExpr → Option String
  | .list t => unhashable? t
  | .record t => unhashable? t
  | .tuple ts | .union ts | .pipe ts => unhashableItem? ts
  | .literal _ vs => Value.unhashableItem? vs
  | _ => Option.none
termination_by structural t => t

def unhashableItem? : List TypeExpr → Option String
  | [] => Option.none
  | t :: ts => match unhashable? t with
    | some type => some type
    | Option.none => unhashableItem? ts
termination_by structural ts => ts

end

/-- A literal type without repetitions; none are looked for where a value has no hash. -/
def literalOf (tag : Nat) (values : List Value) : TypeExpr :=
  match Value.unhashableItem? values with
  | some _ => .literal tag values
  | Option.none => .literal tag (keepFirst Value.sameTyped values)

def members : TypeExpr → List TypeExpr
  | .union ts | .pipe ts => ts
  | t => [t]

def distinctMembers (ts : List TypeExpr) : List TypeExpr :=
  keepFirst same (ts.flatMap members)

def unionOf (ts : List TypeExpr) : Except Fault TypeExpr :=
  match unhashableItem? (ts.flatMap members) with
  | some type => .error (.unhashable type)
  | Option.none => match distinctMembers ts with
    | [t] => .ok t
    | distinct => .ok (.union distinct)

def oneOf : List TypeExpr → Except Fault TypeExpr
  | [t] => .ok t
  | ts => unionOf ts

end TypeExpr
end Conform
