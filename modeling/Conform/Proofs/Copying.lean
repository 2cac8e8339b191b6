import Conform.Proofs.Reordered
import Conform.Value.Copy

/-!
What copying makes of a value. A copy has the items and entries of what it was copied from, in
their order, so it is the same value, containers inside themselves included. Copying fails
where a read-only map stands in the value, or the nesting is deeper than is followed, and
nowhere else.
-/
namespace Conform.Value

def NodeCopyable : Value → Prop
  | .map _ .frozen _ => False
  | _ => True

def Copyable (v : Value) : Prop := v.Every NodeCopyable

/-- What can stop the copying of a value, with room for so many containers. -/
def CopyStops (room : Nat) (v : Value) : Fault → Prop
  | .tooDeep => room < v.depth
  | .uncopyable type => type = "mappingproxy" ∧ ¬ v.Copyable
  | _ => False

theorem CopyStops.outward {room : Nat} {v w : Value} (child : w ∈ v.children) {fault : Fault}
    (stops : w.CopyStops room fault) : v.CopyStops (room + 1) fault := by
  cases fault with
  | tooDeep =>
    have deeper : room < w.depth := stops
    exact Nat.lt_of_le_of_lt deeper (depth_child_lt child)
  | uncopyable type => exact ⟨stops.1, fun copyable => stops.2 (copyable.at_child child)⟩
  | _ => exact stops

def copyEntry (room : Nat) (e : Key × Value) : Except Fault (Key × Value) := do
  let copied ← copyIn room e.2
  .ok (e.1, copied)

theorem copyItems_eq_mapM (room : Nat) (vs : List Value) :
    copyItems room vs = vs.mapM (copyIn room) := by
  induction vs with
  | nil => rfl
  | cons v vs ih =>
    rw [copyItems, ih, List.mapM_cons]
    rfl

theorem copyEntries_eq_mapM (room : Nat) (es : List (Key × Value)) :
    copyEntries room es = es.mapM (copyEntry room) := by
  induction es with
  | nil => rfl
  | cons e es ih =>
    rw [copyEntries, ih, List.mapM_cons, copyEntry]
    cases copyIn room e.2 <;> rfl

theorem copyIn_faults (room : Nat) (v : Value) : FaultsIn (v.CopyStops room) (copyIn room v) := by
  induction v using treeInduction generalizing room with
  | scalar | set | again => exact faultsIn_ok _
  | seq name kind items ih =>
    cases room with
    | zero =>
      intro fault stopped
      cases stopped
      exact Nat.succ_pos _
    | succ room =>
      rw [copyIn, copyItems_eq_mapM]
      refine (faultsIn_mapM fun v member => ?_).bind fun copies _ => faultsIn_ok _
      exact (ih v member room).mono fun fault stops => stops.outward member
  | map name kind es ih =>
    cases kind with
    | frozen =>
      intro fault stopped
      cases stopped
      exact ⟨rfl, fun copyable => copyable.at_root⟩
    | mutable => cases room with
      | zero =>
        intro fault stopped
        cases stopped
        exact Nat.succ_pos _
      | succ room =>
        rw [copyIn, copyEntries_eq_mapM]
        refine (faultsIn_mapM fun e member => ?_).bind fun copies _ => faultsIn_ok _
        refine ((ih e member room).bind fun copied _ => faultsIn_ok _).mono fun fault stops => ?_
        exact stops.outward (mem_children_of_entry member)

theorem kept_of_mapM {α : Type} {f : α → Except Fault α} {p q : α → Prop} {xs ys : List α}
    (each : ∀ x ∈ xs, ∀ y, f x = .ok y → p x ∧ (q x → y = x)) (made : xs.mapM f = .ok ys) :
    (∀ x ∈ xs, p x) ∧ ((∀ x ∈ xs, q x) → ys = xs) := by
  have related := forall₂_members (forall₂_of_mapM made)
  constructor
  · intro x member
    obtain ⟨y, _, _, single⟩ := exists_related related member
    exact (each x member y single).1
  · intro all
    have same : List.Forall₂ Eq xs ys := related.imp fun x y both =>
      ((each x both.1 y both.2).2 (all x both.1)).symm
    rw [List.forall₂_eq_eq_eq] at same
    exact same.symm

theorem copyIn_ok {room : Nat} {v w : Value} (copied : copyIn room v = .ok w) :
    (v.Copyable ∧ v.depth ≤ room) ∧ (v.Every NodeDistinct → w = v) := by
  induction v using treeInduction generalizing room w with
  | scalar | set | again =>
    cases copied
    exact ⟨⟨.node trivial (fun x child => by cases child), Nat.zero_le _⟩, fun _ => rfl⟩
  | seq name kind items ih =>
    cases room with
    | zero => cases copied
    | succ room =>
      obtain ⟨copies, made, same⟩ := except_bind_ok_iff.mp copied
      cases same
      rw [copyItems_eq_mapM] at made
      obtain ⟨inner, kept⟩ := kept_of_mapM (fun x member y single => ih x member single) made
      refine ⟨⟨.node trivial fun x member => (inner x member).1, ?_⟩, fun distinct => ?_⟩
      · exact Nat.succ_le_succ (depthOfItems_le_iff.mpr fun x member => (inner x member).2)
      · rw [kept fun x member => distinct.at_child member]
  | map name kind es ih =>
    cases kind with
    | frozen => cases copied
    | mutable => cases room with
      | zero => cases copied
      | succ room =>
        obtain ⟨copies, made, same⟩ := except_bind_ok_iff.mp copied
        cases same
        rw [copyEntries_eq_mapM] at made
        have each : ∀ e ∈ es, ∀ f, copyEntry room e = .ok f →
            (e.2.Copyable ∧ e.2.depth ≤ room) ∧ (e.2.Every NodeDistinct → f = e) := by
          intro e member f single
          obtain ⟨x, copied, same⟩ := except_bind_ok_iff.mp single
          cases same
          exact (ih e member copied).imp_right fun kept distinct => by rw [kept distinct]
        obtain ⟨inner, kept⟩ := kept_of_mapM each made
        refine ⟨⟨.node trivial fun x child => ?_, ?_⟩, fun distinct => ?_⟩
        · obtain ⟨e, member, rfl⟩ := List.mem_map.mp child
          exact (inner e member).1
        · exact Nat.succ_le_succ (depthOfEntries_le_iff.mpr fun e member => (inner e member).2)
        -- written into an empty map, entries with keys of their own keep their places
        · have apart : KeysDistinct es := distinct.at_root
          rw [kept fun e member => distinct.at_child (mem_children_of_entry member), entriesOf,
            entriesBy_of_pairwise apart]

/-- A value is copied exactly if there is no read-only map in it and its nesting is followed,
    and its copy is the same. -/
theorem copy_ok_iff {v w : Value} (distinct : v.Every NodeDistinct) :
    v.copy = .ok w ↔ v.Copyable ∧ v.depth ≤ nestingLimit ∧ w = v := by
  constructor
  · intro copied
    obtain ⟨⟨copyable, fits⟩, same⟩ := copyIn_ok copied
    exact ⟨copyable, fits, same distinct⟩
  · rintro ⟨copyable, fits, rfl⟩
    obtain ⟨x, copied⟩ : ∃ x, w.copy = .ok x := by
      refine (copyIn_faults nestingLimit w).returns fun fault stops => ?_
      cases fault with
      | tooDeep => exact absurd fits (Nat.not_le_of_lt stops)
      | uncopyable type => exact stops.2 copyable
      | _ => exact stops
    rw [copied, (copyIn_ok copied).2 distinct]

theorem copy_of_not_copyable {v : Value} (held : ¬ v.Copyable) (fits : v.depth ≤ nestingLimit) :
    v.copy = .error (.uncopyable "mappingproxy") := by
  cases copied : v.copy with
  | ok w => exact absurd (copyIn_ok copied).1.1 held
  | error fault =>
    have stops := copyIn_faults nestingLimit v fault copied
    cases fault with
    | tooDeep => exact absurd fits (Nat.not_le_of_lt stops)
    | uncopyable type => rw [stops.1]
    | _ => exact stops.elim

end Conform.Value
