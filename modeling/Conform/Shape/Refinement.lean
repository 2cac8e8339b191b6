import Conform.Json.Reader
import Conform.Shape.Basic

/-!
Ready-made checks for refinements and custom shapes.
-/
namespace Conform

def Value.length? : Value → Option Nat
  | .seq _ _ items => some items.length
  | .map _ .mutable entries => some entries.length
  | v => v.text?.map String.length

namespace Check

def pass : Check := fun _ => accept

/-- Fails with a text, inside the given segments from the innermost on. -/
def failing (text : String) (segments : List Segment) : Check := fun _ =>
  pure (.reject (segments.foldl Failure.within (.of (.stated text))))

def expecting (what : String) : Check := expect what

def observed (label : String) : Check := fun v => do
  Run.emit (.call label v)
  accept

def minLength (least : Nat) (text : String) : Check := fun v =>
  match v.length? with
  | none => expect "sized" v
  | some n => if least ≤ n then accept else fail (.stated text)

def minimum (least : Int) (text : String) : Check := fun v =>
  match v with
  | .scalar (.int n) => if (Number.int n).atLeast least then accept else fail (.stated text)
  | .scalar (.float x) => if (Number.float x).atLeast least then accept else fail (.stated text)
  | v => expect "number" v

def hexadecimal : Check := fun v =>
  match v.text? with
  | none => expect "string" v
  | some s =>
    if !s.isEmpty && s.toList.all (fun c => (Json.hexValue? c).isSome) then accept
    else fail (.stated "Invalid hex string")

def moment : Check := fun v =>
  match v with
  | .scalar (.moment _) => accept
  | v => expect "datetime" v

def raising (message : String) : Check := fun _ => Run.raise (.checkRaised message)

end Check
end Conform
