import Conform.Path
import Conform.Proofs.Nesting

/-!
What stops the showing of a value: an integer with too many digits to be written,
or nesting that is too deep. Quoting a value in a diagnostic has no other fault,
however the value was made, and naming a place in it can only meet the integer.
-/
namespace Conform

/-- Whatever stops the computation is a fault of this kind. -/
def FaultsIn {α : Type} (p : Fault → Prop) (x : Except Fault α) : Prop :=
  ∀ fault, x = .error fault → p fault

section

variable {α β : Type} {p q : Fault → Prop} {x : Except Fault α}

theorem faultsIn_ok (a : α) : FaultsIn p (.ok a : Except Fault α) := by
  intro fault stopped
  cases stopped

theorem FaultsIn.mono (faults : FaultsIn p x) (wider : ∀ fault, p fault → q fault) :
    FaultsIn q x :=
  fun fault stopped => wider fault (faults fault stopped)

theorem FaultsIn.bind {next : α → Except Fault β} (first : FaultsIn p x)
    (rest : ∀ a, x = .ok a → FaultsIn p (next a)) : FaultsIn p (x >>= next) := by
  intro fault stopped
  cases ending : x with
  | error earlier =>
    rw [ending] at stopped
    cases stopped
    exact first fault ending
  | ok a =>
    rw [ending] at stopped
    exact rest a ending fault stopped

theorem FaultsIn.map (f : α → β) (faults : FaultsIn p x) : FaultsIn p (f <$> x) := by
  intro fault stopped
  cases ending : x with
  | error earlier =>
    rw [ending] at stopped
    cases stopped
    exact faults fault ending
  | ok a =>
    rw [ending] at stopped
    cases stopped

theorem FaultsIn.returns (faults : FaultsIn p x) (none : ∀ fault, ¬ p fault) : ∃ a, x = .ok a := by
  cases x with
  | ok a => exact ⟨a, rfl⟩
  | error fault => exact absurd (faults fault rfl) (none fault)

theorem faultsIn_mapM {f : α → Except Fault β} {xs : List α} (each : ∀ x ∈ xs, FaultsIn p (f x)) :
    FaultsIn p (xs.mapM f) := by
  induction xs with
  | nil => exact faultsIn_ok []
  | cons x xs ih =>
    rw [List.forall_mem_cons] at each
    rw [List.mapM_cons]
    refine each.1.bind fun y _ => ?_
    exact (ih each.2).bind fun ys _ => faultsIn_ok (y :: ys)

theorem Run.bind_faults {r : Run α} {next : α → Run β} (first : FaultsIn p r.result)
    (rest : ∀ a, r.result = .ok a → FaultsIn p (next a).result) :
    FaultsIn p (r >>= next).result := by
  intro fault stopped
  change (Run.bind r next).result = .error fault at stopped
  unfold Run.bind at stopped
  split at stopped
  · rename_i a ending
    exact rest a ending fault stopped
  · rename_i earlier ending
    cases stopped
    exact first fault ending

end

def WritableInteger (n : Int) : Prop := n.natAbs < Nat.pow 10 digitLimit

theorem writableInteger_of_safe {n : Int} (safe : n.natAbs ≤ maxSafeInteger) :
    WritableInteger n := by
  have short : ∀ digits, 16 ≤ digits → n.natAbs < Nat.pow 10 digits := fun digits enough =>
    calc n.natAbs ≤ maxSafeInteger := safe
      _ < Nat.pow 10 16 := by decide
      _ ≤ Nat.pow 10 digits := Nat.pow_le_pow_right (by decide) enough
  exact short digitLimit (by decide)

def Payload.Writable : Payload → Prop
  | .int n => WritableInteger n
  | _ => True

def Scalar.Writable : Scalar → Prop
  | .int n => WritableInteger n
  | .symbol s => s.payload.Writable
  | _ => True

namespace Key

mutual

def Writable : Key → Prop
  | .scalar a => a.Writable
  | .tuple ks => AllWritable ks
termination_by structural k => k

def AllWritable : List Key → Prop
  | [] => True
  | k :: ks => Writable k ∧ AllWritable ks
termination_by structural ks => ks

end

end Key

namespace Value

/-- The integers at a node of a value can be written, and so can the indices of its items. -/
def NodeWritable : Value → Prop
  | .scalar a => a.Writable
  | .seq _ _ items => items.length ≤ Nat.pow 10 digitLimit
  | .map _ _ entries => ∀ e ∈ entries, e.1.Writable
  | .set member => ∀ k ∈ member, k.Writable
  | .again _ => True

def Writable (v : Value) : Prop := v.Every NodeWritable

theorem nodeWritable_stable : Stable NodeWritable := by
  intro n c v closed here
  cases v with
  | scalar a => exact here
  | set member => exact here
  | again m =>
    rw [fill]
    split
    · exact closed
    · trivial
  | seq name kind items =>
    rw [fill]
    split
    · exact here
    · rw [fillItems_eq_map, NodeWritable, List.length_map]
      exact here
  | map name kind es =>
    rw [fill]
    split
    · exact here
    · rw [fillEntries_eq_map, NodeWritable, List.forall_mem_map]
      exact here

def Hazard (v : Value) : Fault → Prop
  | .tooDeep => ¬ v.Shallow
  | .unwritableInteger => ¬ v.Writable
  | _ => False

theorem Hazard.outward {v w : Value} (part : v.Part w) {fault : Fault} (hazard : w.Hazard fault) :
    v.Hazard fault := by
  cases fault with
  | tooDeep => exact fun shallow => hazard (shallow.part part)
  | unwritableInteger => exact fun writable => hazard (writable.part nodeWritable_stable part)
  | _ => exact hazard

end Value

section

variable {p : Fault → Prop}

theorem integerText_faults {n : Int} (long : ¬ WritableInteger n → p .unwritableInteger) :
    FaultsIn p (integerText n) := by
  intro fault stopped
  unfold integerText at stopped
  split at stopped
  · cases stopped
  · rename_i unwritable
    cases stopped
    exact long unwritable

theorem Payload.shown_faults {a : Payload} (long : ¬ a.Writable → p .unwritableInteger) :
    FaultsIn p a.shown := by
  cases a with
  | int n => exact integerText_faults (n := n) long
  | text s => exact faultsIn_ok _
  | float x => exact faultsIn_ok _

theorem Symbol.display_faults {s : Symbol} (long : ¬ s.payload.Writable → p .unwritableInteger) :
    FaultsIn p s.display := by
  obtain ⟨family, name, payload, transparent⟩ := s
  cases transparent with
  | false => exact faultsIn_ok _
  | true => cases payload with
    | int n => exact integerText_faults (n := n) long
    | text s => exact faultsIn_ok _
    | float x => exact faultsIn_ok _

namespace Scalar

variable {a : Scalar} (long : ¬ a.Writable → p .unwritableInteger)
include long

theorem repr_faults : FaultsIn p a.repr := by
  cases a with
  | int n => exact integerText_faults (n := n) long
  | symbol s => exact (Payload.shown_faults long).bind fun _ _ => faultsIn_ok _
  | _ => exact faultsIn_ok _

theorem display_faults : FaultsIn p a.display := by
  cases a with
  | int n => exact integerText_faults (n := n) long
  | symbol s => exact Symbol.display_faults long
  | _ => exact faultsIn_ok _

end Scalar

namespace Key

mutual

theorem repr_faults : ∀ k : Key, (¬ k.Writable → p .unwritableInteger) → FaultsIn p k.repr
  | .scalar _, long => Scalar.repr_faults long
  | .tuple ks, long => (reprs_faults ks long).map tupleText
termination_by structural k => k

theorem reprs_faults :
    ∀ ks : List Key, (¬ AllWritable ks → p .unwritableInteger) → FaultsIn p (reprs ks)
  | [], _ => faultsIn_ok []
  | k :: ks, long =>
    (repr_faults k fun unwritable => long fun all => unwritable all.1).bind fun part _ =>
      (reprs_faults ks fun unwritable => long fun all => unwritable all.2).bind fun parts _ =>
        faultsIn_ok (part :: parts)
termination_by structural ks => ks

end

variable {k : Key} (long : ¬ k.Writable → p .unwritableInteger)
include long

theorem display_faults : FaultsIn p k.display := by
  cases k with
  | scalar a => exact Scalar.display_faults long
  | tuple ks => exact repr_faults _ long

theorem segment_faults : FaultsIn p k.segment := by
  unfold segment
  split
  · exact faultsIn_ok _
  · exact faultsIn_ok _
  · exact faultsIn_ok _
  · exact faultsIn_ok _
  · exact (display_faults long).bind fun _ _ => faultsIn_ok _

theorem segment_display_faults {segment : Segment} (named : k.segment = .ok segment) :
    FaultsIn p segment.display := by
  unfold Key.segment at named
  split at named
  · cases named
    exact faultsIn_ok _
  · rename_i n
    cases named
    exact integerText_faults (n := n) long
  · rename_i family name n
    cases named
    exact Symbol.display_faults (s := ⟨family, name, .int n, true⟩) long
  · rename_i family name text
    cases named
    exact Symbol.display_faults (s := ⟨family, name, .text text, true⟩) long
  · cases shown : k.display with
    | error fault =>
      rw [shown] at named
      cases named
    | ok text =>
      rw [shown] at named
      cases named
      exact faultsIn_ok _

end Key

namespace Value

theorem reprItems_faults {room : Nat} {around : Around} {vs : List Value}
    (each : ∀ v ∈ vs, FaultsIn p (reprIn room around v)) :
    FaultsIn p (reprItems room around vs) := by
  induction vs with
  | nil => exact faultsIn_ok []
  | cons v vs ih =>
    rw [List.forall_mem_cons] at each
    exact each.1.bind fun part _ => (ih each.2).bind fun parts _ => faultsIn_ok (part :: parts)

theorem reprEntries_faults {room : Nat} {around : Around} {es : List (Key × Value)}
    (keys : ∀ e ∈ es, FaultsIn p e.1.repr)
    (each : ∀ e ∈ es, FaultsIn p (reprIn room around e.2)) :
    FaultsIn p (reprEntries room around es) := by
  induction es with
  | nil => exact faultsIn_ok []
  | cons e es ih =>
    rw [List.forall_mem_cons] at keys each
    exact keys.1.bind fun key _ => each.1.bind fun value _ =>
      (ih keys.2 each.2).bind fun parts _ => faultsIn_ok _

theorem reprIn_faults {v : Value} {room : Nat} {around : Around}
    (deep : room < v.depth → p .tooDeep) (long : ¬ v.Writable → p .unwritableInteger) :
    FaultsIn p (reprIn room around v) := by
  induction v using treeInduction generalizing room around with
  | scalar a =>
    exact Scalar.repr_faults fun unwritable => long fun all => unwritable all.at_root
  | again n => exact faultsIn_ok _
  | set member =>
    cases member with
    | none => exact faultsIn_ok _
    | some k =>
      refine (Key.repr_faults k fun unwritable => long fun all => ?_).map _
      exact unwritable (all.at_root k rfl)
  | seq name kind items ih =>
    unfold reprIn
    split
    · exact faultsIn_ok _
    · intro fault stopped
      cases stopped
      exact deep (Nat.succ_pos _)
    · rename_i room
      refine (reprItems_faults fun w member => ?_).bind fun parts _ => faultsIn_ok _
      refine ih w member (fun deeper => deep ?_) fun unwritable => long fun all => ?_
      · have child : w ∈ (seq name kind items).children := member
        exact Nat.lt_of_le_of_lt deeper (depth_child_lt child)
      · exact unwritable (all.at_child member)
  | map name kind es ih =>
    unfold reprIn
    split
    · exact faultsIn_ok _
    · intro fault stopped
      cases stopped
      exact deep (Nat.succ_pos _)
    · refine (reprEntries_faults (fun e member => ?_) fun e member => ?_).bind fun parts _ =>
        faultsIn_ok _
      · exact Key.repr_faults e.1 fun unwritable => long fun all =>
          unwritable (all.at_root e member)
      · have child : e.2 ∈ (map name kind es).children := mem_children_of_entry member
        refine ih e member (fun deeper => deep ?_) fun unwritable => long fun all => ?_
        · exact Nat.lt_of_le_of_lt deeper (depth_child_lt child)
        · exact unwritable (all.at_child child)

theorem repr_faults (v : Value) : FaultsIn v.Hazard v.repr := by
  refine reprIn_faults (fun deep shallow => ?_) id
  exact Nat.not_le_of_lt deep (shallow v .whole)

end Value

/-- A value is quoted in a diagnostic unless it is nested too deeply or holds an integer that
    cannot be written. -/
theorem Json.describe_faults (v : Value) : FaultsIn v.Hazard (describe v) := by
  unfold describe
  split
  · exact faultsIn_ok _
  · split
    · rename_i deep
      intro fault stopped
      cases stopped
      exact fun shallow => Nat.not_le_of_lt (lt_depth_of_tooDeep deep) (shallow v .whole)
    · exact (Value.repr_faults v).map String.ofList
    · split
      · exact faultsIn_ok _
      · exact (Value.repr_faults v).map String.ofList

theorem Container.lookup_faults (c : Container) (name : String) :
    FaultsIn (fun fault => ∃ items digits, c = .seq items ∧ indexDigits? name = some digits ∧
      digitLimit < digits.length ∧ fault = .unreadableInteger digits.length) (c.lookup name) := by
  cases c with
  | map entries => exact faultsIn_ok _
  | seq items =>
    intro fault stopped
    unfold lookup at stopped
    cases index : indexDigits? name with
    | none => simp [index] at stopped
    | some digits =>
      by_cases long : digitLimit < digits.length
      · simp only [index, if_pos long, Except.error.injEq] at stopped
        exact ⟨items, digits, rfl, rfl, long, stopped.symm⟩
      · simp [index, if_neg long] at stopped

end

theorem Segment.render_faults {p : Fault → Prop} {segment : Segment}
    (shown : FaultsIn p segment.display) : FaultsIn p segment.render :=
  shown.bind fun _ _ => faultsIn_ok _

end Conform
