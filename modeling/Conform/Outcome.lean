import Conform.Failure
import Conform.Value.Equality

/-!
Outcomes: the two-sided results that operations hand back, and what a caller can
do with one. What is carried is a value, an error, or a failure that is still
collecting its path. Two errors or failures are never equal.
-/
namespace Conform

inductive Carried where
  | value (v : Value)
  | error (kind : FailureKind) (message : String)
  | failure (f : Failure)
  | pair (first : Carried) (second : Value)

namespace Carried

def withValue (c : Carried) (second : Value) : Carried :=
  match c with
  | .value v => .value (.list [v, second])
  | c => .pair c second

def repr : Carried → Except Fault (List Char)
  | .value v => v.repr
  | .error kind message =>
    .ok (kind.name.toList ++ enclosed ['('] [')'] (Text.quoted message.toList))
  | .failure f => do
    let text ← f.render
    .ok ("ErrBuilder".toList ++ enclosed ['('] [')'] (Text.quoted text.toList))
  | .pair first second => do
    let parts ← [first.repr, second.repr].mapM id
    .ok (enclosed ['['] [']'] (separated parts))

def display : Carried → Except Fault (List Char)
  | .value v => v.display
  | .error _ message => .ok message.toList
  | .failure f => do
    let text ← f.render
    .ok text.toList
  | c => c.repr

def same : Carried → Carried → Except Fault Bool
  | .value v, .value w => v.same w
  | _, _ => .ok false

end Carried

inductive Outcome where
  | ok (carried : Carried)
  | err (carried : Carried)

namespace Outcome

def carried : Outcome → Carried
  | .ok c | .err c => c

def isOk : Outcome → Bool
  | .ok _ => true
  | .err _ => false

def isErr (o : Outcome) : Bool := !o.isOk

def map (f : Carried → Carried) : Outcome → Outcome
  | .ok c => .ok (f c)
  | .err c => .err c

def mapErr (f : Carried → Carried) : Outcome → Outcome
  | .ok c => .ok c
  | .err c => .err (f c)

def andThen (next : Carried → Outcome) : Outcome → Outcome
  | .ok c => next c
  | .err c => .err c

def thrown (text : String) (c : Carried) : Except Fault Carried := do
  let shown ← c.display
  .error (.thrown .unwrap (text ++ ": " ++ String.ofList shown))

/-- The value of a success. An error that is carried is thrown as it is. -/
def unwrap : Outcome → Except Fault Carried
  | .ok c => .ok c
  | .err (.error kind message) => .error (.thrown kind message)
  | .err c => thrown "Called unwrap() on Err" c

def unwrapErr : Outcome → Except Fault Carried
  | .ok c => do
    let shown ← c.repr
    .error (.thrown .unwrap ("Called unwrap_err() on Ok: " ++ String.ofList shown))
  | .err c => .ok c

def unwrapOr (default : Carried) : Outcome → Carried
  | .ok c => c
  | .err _ => default

def expect (text : String) : Outcome → Except Fault Carried
  | .ok c => .ok c
  | .err c => thrown text c

def same : Outcome → Outcome → Except Fault Bool
  | .ok c, .ok d | .err c, .err d => c.same d
  | _, _ => .ok false

def repr : Outcome → Except Fault String
  | .ok c => do
    let text ← c.repr
    .ok ("Ok(value=" ++ String.ofList text ++ ")")
  | .err c => do
    let text ← c.repr
    .ok ("Err(error=" ++ String.ofList text ++ ")")

end Outcome
end Conform
