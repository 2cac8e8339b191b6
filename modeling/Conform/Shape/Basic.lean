import Conform.Failure
import Conform.TypeExpr.Undefined

/-!
Shapes that values are checked against, as trees of combinators. Refinements and
custom checks are functions from values to verdicts. A check stops at the first
part that fails and says where it is; the alternatives of a union are tried in
order, and when all fail their texts are joined at the place of the union.
-/
namespace Conform

inductive AtomicKind where
  | string
  | number
  | boolean
  | undefined
  | bigint
  | symbol
  deriving DecidableEq, Repr

namespace AtomicKind

def all : List AtomicKind := [.string, .number, .boolean, .undefined, .bigint, .symbol]

def kind : AtomicKind → Kind
  | .string => .string
  | .number => .number
  | .boolean => .boolean
  | .undefined => .undefined
  | .bigint => .bigint
  | .symbol => .symbol

def name (k : AtomicKind) : String := k.kind.name

def ofName? (name : String) : Option AtomicKind := all.find? fun k => k.name == name

end AtomicKind

/-- Literals, structs and merges carry the tag of their type; a closed struct admits
    declared fields only. -/
inductive Shape where
  | atomic (kind : AtomicKind)
  | literal (tag : Nat) (candidates : List Value)
  | optional (base : Shape)
  | nullable (base : Shape)
  | array (item : Shape)
  | record (item : Shape)
  | tuple (items : List Shape)
  | either (left right : Shape)
  | anyOf (alternatives : List Shape)
  | both (left right : Shape)
  | merge (tag : Nat) (left right : Shape)
  | refined (base : Shape) (refine : Check)
  | custom (check : Check) (type : TypeExpr)
  | struct (tag : Nat) (closed : Bool) (fields : List (String × Shape))

namespace Shape

open Check

def expectation (candidates : List Value) : Except Fault String := do
  let texts ← candidates.mapM Json.describe
  .ok ("one of " ++ ", ".intercalate texts)

def someEqual (v : Value) : List Value → Except Fault Bool
  | [] => .ok false
  | c :: cs =>
    if c.kind = v.kind then do
      if ← c.same v then .ok true else someEqual v cs
    else someEqual v cs

def checkLiteral (candidates : List Value) (v : Value) : Run Verdict := do
  if ← someEqual v candidates then accept
  else do
    let what ← expectation candidates
    expect what v

def checkItems (check : Check) (i : Nat) : List Value → Run Verdict
  | [] => accept
  | v :: vs => andThen (inside (.index i) (check v)) fun _ => checkItems check (i + 1) vs

def checkLabelled (check : Check) : List (Except Fault Segment × Value) → Run Verdict
  | [] => accept
  | (label, v) :: rest => do
    let segment ← label
    andThen (inside segment (check v)) fun _ => checkLabelled check rest

def checkDeclared (names : List String) : List (Except Fault Segment × Value) → Run Verdict
  | [] => accept
  | (label, _) :: rest => do
    let segment ← label
    if names.any segment.isName then checkDeclared names rest
    else inside segment (fail .unexpectedField)

mutual

def check : Shape → Value → Run Verdict
  | .atomic k, v => if v.kind = k.kind then accept else expect k.name v
  | .literal _ candidates, v => checkLiteral candidates v
  | .optional base, v => if v.isUndefined then accept else check base v
  | .nullable base, v => match v with
    | .null => accept
    | v => check base v
  | .array item, v => match v.items? with
    | some items => checkItems (check item) 0 items
    | none => expect "array" v
  | .record item, v => match v.container? with
    | some container => checkLabelled (check item) container.labelled
    | none => expect "object" v
  | .tuple shapes, v => match v.items? with
    | some items =>
      if items.length = shapes.length then checkEach shapes 0 items
      else fail (.length shapes.length items.length)
    | none => expect "tuple" v
  | .either left right, v => do
    match ← check left v with
    | .accept => accept
    | .reject f => match ← check right v with
      | .accept => accept
      | .reject g => do
        let first ← f.render
        let second ← g.render
        fail (.noneOf [first, second])
  | .anyOf alternatives, v => checkAny alternatives [] v
  | .both left right, v => andThen (check left v) fun _ => check right v
  | .merge _ left right, v => andThen (check left v) fun _ => check right v
  | .refined base refine, v => andThen (check base v) fun _ => refine v
  | .custom own _, v => own v
  | .struct _ closed fields, v => match v.container? with
    | some container =>
      andThen (checkFields fields container) fun _ =>
        if closed then checkDeclared (fields.map (·.1)) container.labelled else accept
    | none => expect "struct" v
termination_by structural s => s

def checkEach : List Shape → Nat → List Value → Run Verdict
  | s :: ss, i, v :: vs => andThen (inside (.index i) (check s v)) fun _ => checkEach ss (i + 1) vs
  | _, _, _ => accept
termination_by structural ss => ss

/-- Tries alternatives in order, after those that failed with the given texts. -/
def checkAny : List Shape → List String → Value → Run Verdict
  | [], rendered, _ => fail (.noneOf rendered)
  | s :: ss, rendered, v => do
    match ← check s v with
    | .accept => accept
    | .reject f => do
      let text ← f.render
      checkAny ss (rendered ++ [text]) v
termination_by structural ss => ss

/-- Checks declared fields in order, an absent one as undefined. -/
def checkFields : List (String × Shape) → Container → Run Verdict
  | [], _ => accept
  | (name, s) :: fields, container => do
    let v ← container.lookup name
    andThen (inside (.name name) (check s v)) fun _ => checkFields fields container
termination_by structural fields => fields

end

def fields? : Shape → Option (List (String × Shape))
  | .struct _ _ fields => some fields
  | _ => none

end Shape
end Conform
