import Conform.Value.Basic

/-!
What an operation does besides its result: calls of observed checks and lines of
a log, in order. A fault ends an operation, and the events before it remain.
-/
namespace Conform

inductive Origin where
  | json
  | schema
  deriving DecidableEq, Repr

inductive Event where
  | call (label : String) (value : Value)
  | log (origin : Origin) (text : String)

structure Run (α : Type) where
  events : List Event
  result : Except Fault α

namespace Run

def bind {α β : Type} (r : Run α) (next : α → Run β) : Run β :=
  match r.result with
  | .ok a =>
    let s := next a
    ⟨r.events ++ s.events, s.result⟩
  | .error fault => ⟨r.events, .error fault⟩

instance : Monad Run where
  pure a := ⟨[], .ok a⟩
  bind := bind

def ofExcept {α : Type} (result : Except Fault α) : Run α := ⟨[], result⟩

def raise {α : Type} (fault : Fault) : Run α := ⟨[], .error fault⟩

instance {α : Type} : Inhabited (Run α) := ⟨raise .tooDeep⟩

def emit (event : Event) : Run Unit := ⟨[event], .ok ()⟩

instance : MonadLift (Except Fault) Run := ⟨ofExcept⟩

def calls {α : Type} (r : Run α) : List (String × Value) :=
  r.events.filterMap fun
    | .call label value => some (label, value)
    | .log .. => none

def log {α : Type} (r : Run α) : List (Origin × String) :=
  r.events.filterMap fun
    | .log origin text => some (origin, text)
    | .call .. => none

end Run
end Conform
