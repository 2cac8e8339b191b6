import Conform.Schema.Basic

/-!
The state that operations share: whether numbers that are not finite are allowed
in JSON, which contexts set for as long as they last, and schemas defined by
name. Outside every context they are not allowed.
-/
namespace Conform

structure Session where
  contexts : List Bool
  definitions : List (String × Schema)
  nextTag : Nat

namespace Session

def start : Session := ⟨[], [], 0⟩

def allowNaN (s : Session) : Bool := s.contexts.headD false

def enter (s : Session) (allowNaN : Bool) : Session := { s with contexts := allowNaN :: s.contexts }

def exit (s : Session) : Session := { s with contexts := s.contexts.drop 1 }

def define (s : Session) (name : String) (schema : Schema) : Session :=
  { s with definitions := (name, schema) :: s.definitions }

def find? (s : Session) (name : String) : Option Schema :=
  (s.definitions.find? fun (n, _) => n == name).map (·.2)

end Session
end Conform
