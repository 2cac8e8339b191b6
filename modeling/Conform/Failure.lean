import Conform.Json.Writer
import Conform.Path
import Conform.Run

/-!
Failures of checks: a reason, and the path to where it arose. Each container on
the way out adds its segment in front.
-/
namespace Conform

inductive Reason where
  | expected (what got : String)
  | length (wanted actual : Nat)
  | unexpectedField
  | noneOf (rendered : List String)
  | stated (text : String)
  deriving DecidableEq, Repr

def Reason.text : Reason → String
  | .expected what got => s!"Expected {what}, got {got}"
  | .length wanted actual => s!"tuple length {wanted}, got {actual}"
  | .unexpectedField => "Unexpected field"
  | .noneOf rendered => " and ".intercalate (rendered.map fun text => "(" ++ text ++ ")")
  | .stated text => text

structure Failure where
  reason : Reason
  path : List Segment
  deriving DecidableEq

structure ShapeError where
  message : String
  path : List Segment
  reason : String
  deriving DecidableEq

namespace Failure

def of (reason : Reason) : Failure := ⟨reason, []⟩

def within (f : Failure) (segment : Segment) : Failure := ⟨f.reason, segment :: f.path⟩

def render (f : Failure) : Except Fault String :=
  match f.path with
  | [] => .ok f.reason.text
  | path => do
    let place ← renderPath path
    .ok ("in " ++ String.ofList place ++ ": " ++ f.reason.text)

def toError (f : Failure) : Except Fault ShapeError := do
  let message ← f.render
  .ok ⟨message, f.path, f.reason.text⟩

end Failure

inductive Verdict where
  | accept
  | reject (failure : Failure)
  deriving DecidableEq

def Verdict.within (segment : Segment) : Verdict → Verdict
  | .accept => .accept
  | .reject f => .reject (f.within segment)

/-- A check takes a value and accepts or rejects it, unless a fault stops it. -/
abbrev Check := Value → Run Verdict

namespace Check

def accept : Run Verdict := pure .accept

def fail (reason : Reason) : Run Verdict := pure (.reject (.of reason))

def expect (what : String) (v : Value) : Run Verdict := do
  let got ← Json.describe v
  fail (.expected what got)

def andThen (first : Run Verdict) (next : Unit → Run Verdict) : Run Verdict := do
  match ← first with
  | .accept => next ()
  | .reject f => pure (.reject f)

def inside (segment : Segment) (part : Run Verdict) : Run Verdict := do
  let verdict ← part
  pure (verdict.within segment)

end Check
end Conform
