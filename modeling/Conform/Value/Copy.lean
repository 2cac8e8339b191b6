import Conform.Value.Basic

/-!
Copies of values that share nothing with them, made container by container. The
entries of a map are copied in their order into an empty one. A container inside
itself is copied once: its copy has the same name, which stands for it within.
Read-only maps and what is nested too deeply cannot be copied.
-/
namespace Conform.Value

mutual

def copyIn (room : Nat) : Value → Except Fault Value
  | .seq name kind items => match room with
    | 0 => .error .tooDeep
    | room + 1 => do
      let copies ← copyItems room items
      .ok (.seq name kind copies)
  | .map name .frozen entries => .error (.uncopyable (typeName (.map name .frozen entries)))
  | .map name .mutable entries => match room with
    | 0 => .error .tooDeep
    | room + 1 => do
      let copies ← copyEntries room entries
      .ok (.map name .mutable (entriesOf copies))
  | v => .ok v
termination_by structural v => v

def copyItems (room : Nat) : List Value → Except Fault (List Value)
  | [] => .ok []
  | v :: vs => do
    let copied ← copyIn room v
    let copies ← copyItems room vs
    .ok (copied :: copies)
termination_by structural vs => vs

def copyEntries (room : Nat) : List (Key × Value) → Except Fault (List (Key × Value))
  | [] => .ok []
  | (k, v) :: es => do
    let copied ← copyIn room v
    let copies ← copyEntries room es
    .ok ((k, copied) :: copies)
termination_by structural es => es

end

def copy (v : Value) : Except Fault Value := copyIn nestingLimit v

end Conform.Value
