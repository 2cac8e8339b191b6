import Conform.Json.Writer
import Conform.Proofs.Parts

/-!
What is inside a value, and how deep. A condition on every node of a value also
holds of what is taken out of it container by container, where each container
takes the place of its own name. Writing meets no obstacle exactly where no
container is inside itself and the nesting fits the room.
-/
namespace Conform.Value

/-- The values that a container is written with. -/
def children : Value → List Value
  | .seq _ _ items => items
  | .map _ _ entries => entries.map (·.2)
  | _ => []

theorem mem_children_of_entry {name : Option Nat} {kind : Mutability} {es : List (Key × Value)}
    {e : Key × Value} (member : e ∈ es) : e.2 ∈ (map name kind es).children :=
  List.mem_map.mpr ⟨e, member, rfl⟩

theorem childInduction {P : Value → Prop} (step : ∀ v : Value, (∀ w ∈ v.children, P w) → P v)
    (v : Value) : P v := by
  induction v using treeInduction with
  | scalar | set | again => exact step _ fun w child => by cases child
  | seq name kind items ih => exact step _ ih
  | map name kind es ih =>
    refine step _ fun w child => ?_
    obtain ⟨e, member, rfl⟩ := List.mem_map.mp child
    exact ih e member

theorem isUndefined_iff {v : Value} : v.isUndefined ↔ v = .undefined := by
  constructor
  · intro absent
    unfold isUndefined at absent
    split at absent
    · rfl
    · cases absent
  · rintro rfl
    rfl

inductive Every (p : Value → Prop) : Value → Prop where
  | node {v : Value} (here : p v) (inside : ∀ w ∈ v.children, Every p w) : Every p v

theorem Every.scalar {p : Value → Prop} {a : Scalar} (here : p (.scalar a)) :
    (Value.scalar a).Every p :=
  .node here fun w child => by cases child

theorem Every.at_root {p : Value → Prop} {v : Value} (all : v.Every p) : p v := by
  cases all with
  | node here inside => exact here

theorem Every.at_child {p : Value → Prop} {v w : Value} (all : v.Every p)
    (child : w ∈ v.children) : w.Every p := by
  cases all with
  | node here inside => exact inside w child

theorem Every.mono {p q : Value → Prop} {v : Value} (all : v.Every p) (weaker : ∀ w, p w → q w) :
    v.Every q := by
  induction all with
  | node here inside ih => exact .node (weaker _ here) ih

/-- What can be taken out of a value by opening one container after the other. -/
inductive Part (v : Value) : Value → Prop where
  | whole : Part v v
  | inside {w x : Value} {c : Container} (outer : Part v w) (opened : w.container? = some c)
      (member : x ∈ c.values) : Part v x

theorem Part.trans {v w x : Value} (outer : v.Part w) (inner : w.Part x) : v.Part x := by
  induction inner with
  | whole => exact outer
  | inside _ opened member ih => exact .inside ih opened member

theorem Part.item {v x : Value} {c : Container} (opened : v.container? = some c)
    (member : x ∈ c.values) : v.Part x :=
  .inside .whole opened member

theorem fillItems_eq_map (n : Nat) (c : Value) (vs : List Value) :
    fillItems n c vs = vs.map (fill n c) := by
  induction vs with
  | nil => rfl
  | cons v vs ih => rw [fillItems, ih, List.map_cons]

theorem fillEntries_eq_map (n : Nat) (c : Value) (es : List (Key × Value)) :
    fillEntries n c es = es.map fun e => (e.1, fill n c e.2) := by
  induction es with
  | nil => rfl
  | cons e es ih => rw [fillEntries, ih, List.map_cons]

theorem container?_of_items? {v : Value} {xs : List Value} (opened : v.items? = some xs) :
    v.container? = some (.seq xs) := by
  cases v with
  | seq name kind items =>
    cases opened
    rfl
  | _ => cases opened

theorem length_items (name : Option Nat) (kind : Mutability) (xs : List Value) :
    (items name kind xs).length = xs.length := by
  cases name with
  | none => rfl
  | some n => rw [items, fillItems_eq_map, List.length_map]

theorem length_entries (name : Option Nat) (kind : Mutability) (es : List (Key × Value)) :
    (entries name kind es).length = es.length := by
  cases name with
  | none => rfl
  | some n => rw [entries, fillEntries_eq_map, List.length_map]

theorem mem_entries {name : Option Nat} {kind : Mutability} {es : List (Key × Value)}
    {e : Key × Value} (member : e ∈ entries name kind es) : ∃ f ∈ es, f.1 = e.1 := by
  cases name with
  | none => exact ⟨e, member, rfl⟩
  | some n =>
    rw [entries, fillEntries_eq_map] at member
    obtain ⟨f, written, rfl⟩ := List.mem_map.mp member
    exact ⟨f, written, rfl⟩

/-- A condition on nodes that does not look below them: a container in the place of its
    name leaves it as it was. -/
def Stable (p : Value → Prop) : Prop := ∀ n c v, p c → p v → p (fill n c v)

section

variable {p : Value → Prop} (stable : Stable p)
include stable

theorem Every.fill {n : Nat} {c v : Value} (closed : c.Every p) (all : v.Every p) :
    (fill n c v).Every p := by
  induction v using treeInduction with
  | scalar a => exact all
  | set member => exact all
  | again m =>
    rw [Value.fill]
    split
    · exact closed
    · exact all
  | seq name kind items ih =>
    have here := stable n c _ closed.at_root all.at_root
    rw [Value.fill] at here ⊢
    split
    · exact all
    · rename_i other
      rw [if_neg other] at here
      refine .node here fun w child => ?_
      rw [children, fillItems_eq_map] at child
      obtain ⟨x, member, rfl⟩ := List.mem_map.mp child
      exact ih x member (all.at_child member)
  | map name kind es ih =>
    have here := stable n c _ closed.at_root all.at_root
    rw [Value.fill] at here ⊢
    split
    · exact all
    · rename_i other
      rw [if_neg other] at here
      refine .node here fun w child => ?_
      rw [children, fillEntries_eq_map, List.map_map] at child
      obtain ⟨e, member, rfl⟩ := List.mem_map.mp child
      exact ih e member (all.at_child (mem_children_of_entry member))

theorem Every.opened {v x : Value} {c : Container} (all : v.Every p)
    (opened : v.container? = some c) (member : x ∈ c.values) : x.Every p := by
  cases v with
  | seq name kind items =>
    cases opened
    cases name with
    | none => exact all.at_child member
    | some n =>
      change x ∈ fillItems n _ items at member
      rw [fillItems_eq_map] at member
      obtain ⟨y, inside, rfl⟩ := List.mem_map.mp member
      exact all.fill stable (all.at_child inside)
  | map name kind es =>
    cases opened
    obtain ⟨e, entry, rfl⟩ := List.mem_map.mp member
    cases name with
    | none => exact all.at_child (mem_children_of_entry entry)
    | some n =>
      change e ∈ fillEntries n _ es at entry
      rw [fillEntries_eq_map] at entry
      obtain ⟨f, inside, rfl⟩ := List.mem_map.mp entry
      exact all.fill stable (all.at_child (mem_children_of_entry inside))
  | _ => cases opened

theorem Every.part {v w : Value} (all : v.Every p) (part : v.Part w) : w.Every p := by
  induction part with
  | whole => exact all
  | inside _ opened member ih => exact ih.opened stable opened member

end

mutual

def depth : Value → Nat
  | .seq _ _ items => depthOfItems items + 1
  | .map _ _ entries => depthOfEntries entries + 1
  | _ => 0
termination_by structural v => v

def depthOfItems : List Value → Nat
  | [] => 0
  | v :: vs => max (depth v) (depthOfItems vs)
termination_by structural vs => vs

def depthOfEntries : List (Key × Value) → Nat
  | [] => 0
  | (_, v) :: es => max (depth v) (depthOfEntries es)
termination_by structural es => es

end

theorem depthOfItems_le_iff {vs : List Value} {room : Nat} :
    depthOfItems vs ≤ room ↔ ∀ v ∈ vs, v.depth ≤ room := by
  induction vs with
  | nil => simp [depthOfItems]
  | cons v vs ih => rw [depthOfItems, Nat.max_le, ih, List.forall_mem_cons]

theorem depthOfEntries_le_iff {es : List (Key × Value)} {room : Nat} :
    depthOfEntries es ≤ room ↔ ∀ e ∈ es, e.2.depth ≤ room := by
  induction es with
  | nil => simp [depthOfEntries]
  | cons e es ih => rw [depthOfEntries, Nat.max_le, ih, List.forall_mem_cons]

theorem depth_child_lt {v w : Value} (child : w ∈ v.children) : w.depth < v.depth := by
  cases v with
  | seq name kind items =>
    exact Nat.lt_succ_of_le (depthOfItems_le_iff.mp (Nat.le_refl _) w child)
  | map name kind es =>
    obtain ⟨e, member, rfl⟩ := List.mem_map.mp child
    exact Nat.lt_succ_of_le (depthOfEntries_le_iff.mp (Nat.le_refl _) e member)
  | _ => cases child

/-- Nothing inside the value, itself included, is nested deeper than is followed. -/
def Shallow (v : Value) : Prop := ∀ w, v.Part w → w.depth ≤ nestingLimit

theorem Shallow.part {v w : Value} (shallow : v.Shallow) (part : v.Part w) : w.Shallow :=
  fun x inner => shallow x (part.trans inner)

def Acyclic (v : Value) : Prop :=
  v.Every fun
    | .again _ => False
    | _ => True

theorem fill_of_acyclic {n : Nat} {c v : Value} (acyclic : v.Acyclic) : fill n c v = v := by
  induction v using treeInduction with
  | scalar | set => rfl
  | again m => exact acyclic.at_root.elim
  | seq name kind items ih =>
    have each : items.map (fill n c) = items.map id :=
      List.map_congr_left fun v member => ih v member (acyclic.at_child member)
    rw [fill, fillItems_eq_map, each, List.map_id, ite_self]
  | map name kind es ih =>
    have each : (es.map fun e => (e.1, fill n c e.2)) = es.map id :=
      List.map_congr_left fun e member => by
        rw [ih e member (acyclic.at_child (mem_children_of_entry member))]
        rfl
    rw [fill, fillEntries_eq_map, each, List.map_id, ite_self]

theorem items_of_acyclic {name : Option Nat} {kind : Mutability} {xs : List Value}
    (acyclic : (seq name kind xs).Acyclic) : items name kind xs = xs := by
  cases name with
  | none => rfl
  | some n =>
    have each : xs.map (fill n (.seq (some n) kind xs)) = xs.map id :=
      List.map_congr_left fun v member => fill_of_acyclic (acyclic.at_child member)
    rw [items, fillItems_eq_map, each, List.map_id]

theorem entries_of_acyclic {name : Option Nat} {kind : Mutability} {es : List (Key × Value)}
    (acyclic : (map name kind es).Acyclic) : entries name kind es = es := by
  cases name with
  | none => rfl
  | some n =>
    have each : (es.map fun e => (e.1, fill n (.map (some n) kind es) e.2)) = es.map id :=
      List.map_congr_left fun e member => by
        rw [fill_of_acyclic (acyclic.at_child (mem_children_of_entry member))]
        rfl
    rw [entries, fillEntries_eq_map, each, List.map_id]

theorem mem_children_of_acyclic {v x : Value} {c : Container} (acyclic : v.Acyclic)
    (opened : v.container? = some c) (member : x ∈ c.values) : x ∈ v.children := by
  cases v with
  | seq name kind items =>
    cases opened
    rwa [Container.values, items_of_acyclic acyclic] at member
  | map name kind es =>
    cases opened
    rwa [Container.values, entries_of_acyclic acyclic] at member
  | _ => cases opened

theorem Acyclic.part {v w : Value} (acyclic : v.Acyclic) (part : v.Part w) :
    w.Acyclic ∧ w.depth ≤ v.depth := by
  induction part with
  | whole => exact ⟨acyclic, Nat.le_refl _⟩
  | inside _ opened member ih =>
    have child := mem_children_of_acyclic ih.1 opened member
    exact ⟨ih.1.at_child child, Nat.le_trans (Nat.le_of_lt (depth_child_lt child)) ih.2⟩

theorem Acyclic.shallow {v : Value} (acyclic : v.Acyclic) (fits : v.depth ≤ nestingLimit) :
    v.Shallow :=
  fun _ part => Nat.le_trans (Acyclic.part acyclic part).2 fits

end Conform.Value

namespace Conform.Json

theorem obstacleItems?_eq_findSome? (room : Nat) (vs : List Value) :
    obstacleItems? room vs = vs.findSome? (obstacle? room) := by
  induction vs with
  | nil => rfl
  | cons v vs ih => cases met : obstacle? room v <;> simp [obstacleItems?, met, ih]

theorem obstacleEntries?_eq_findSome? (room : Nat) (es : List (Key × Value)) :
    obstacleEntries? room es = es.findSome? fun e => obstacle? room e.2 := by
  induction es with
  | nil => rfl
  | cons e es ih => cases met : obstacle? room e.2 <;> simp [obstacleEntries?, met, ih]

theorem obstacle?_eq_none {v : Value} (acyclic : v.Acyclic) {room : Nat} (fits : v.depth ≤ room) :
    obstacle? room v = none := by
  induction v using Value.treeInduction generalizing room with
  | scalar | set => rfl
  | again m => exact acyclic.at_root.elim
  | seq name kind items ih =>
    cases room with
    | zero => cases fits
    | succ room =>
      have inside := Value.depthOfItems_le_iff.mp (Nat.le_of_succ_le_succ fits)
      rw [obstacle?, obstacleItems?_eq_findSome?, List.findSome?_eq_none_iff]
      exact fun v member => ih v member (acyclic.at_child member) (inside v member)
  | map name kind es ih =>
    cases room with
    | zero => cases fits
    | succ room =>
      have inside := Value.depthOfEntries_le_iff.mp (Nat.le_of_succ_le_succ fits)
      rw [obstacle?, obstacleEntries?_eq_findSome?, List.findSome?_eq_none_iff]
      exact fun e member =>
        ih e member (acyclic.at_child (Value.mem_children_of_entry member)) (inside e member)

theorem depth_le_of_obstacle? {v : Value} {room : Nat} (free : obstacle? room v = none) :
    v.depth ≤ room := by
  induction v using Value.treeInduction generalizing room with
  | scalar | set => exact Nat.zero_le _
  | again m => cases free
  | seq name kind items ih =>
    cases room with
    | zero => cases free
    | succ room =>
      rw [obstacle?, obstacleItems?_eq_findSome?, List.findSome?_eq_none_iff] at free
      exact Nat.succ_le_succ (Value.depthOfItems_le_iff.mpr fun v member =>
        ih v member (free v member))
  | map name kind es ih =>
    cases room with
    | zero => cases free
    | succ room =>
      rw [obstacle?, obstacleEntries?_eq_findSome?, List.findSome?_eq_none_iff] at free
      exact Nat.succ_le_succ (Value.depthOfEntries_le_iff.mpr fun e member =>
        ih e member (free e member))

theorem acyclic_of_obstacle? {v : Value} {room : Nat} (free : obstacle? room v = none) :
    v.Acyclic := by
  induction v using Value.treeInduction generalizing room with
  | scalar a => exact .scalar trivial
  | set member => exact .node trivial (List.forall_mem_nil _)
  | again n => cases free
  | seq name kind items ih =>
    cases room with
    | zero => cases free
    | succ room =>
      rw [obstacle?, obstacleItems?_eq_findSome?, List.findSome?_eq_none_iff] at free
      exact .node trivial fun v member => ih v member (free v member)
  | map name kind es ih =>
    cases room with
    | zero => cases free
    | succ room =>
      rw [obstacle?, obstacleEntries?_eq_findSome?, List.findSome?_eq_none_iff] at free
      refine .node trivial fun w child => ?_
      obtain ⟨e, member, rfl⟩ := List.mem_map.mp child
      exact ih e member (free e member)

theorem obstacle?_mono {v : Value} {room more : Nat} (free : obstacle? room v = none)
    (wider : room ≤ more) : obstacle? more v = none :=
  obstacle?_eq_none (acyclic_of_obstacle? free) (Nat.le_trans (depth_le_of_obstacle? free) wider)

theorem lt_depth_of_tooDeep {v : Value} {room : Nat} (deep : obstacle? room v = some .tooDeep) :
    room < v.depth := by
  induction v using Value.treeInduction generalizing room with
  | scalar | set | again => cases deep
  | seq name kind items ih =>
    cases room with
    | zero => exact Nat.succ_pos _
    | succ room =>
      rw [obstacle?, obstacleItems?_eq_findSome?] at deep
      obtain ⟨v, member, inner⟩ := List.exists_of_findSome?_eq_some deep
      have child : v ∈ (Value.seq name kind items).children := member
      exact Nat.lt_of_le_of_lt (ih v member inner) (Value.depth_child_lt child)
  | map name kind es ih =>
    cases room with
    | zero => exact Nat.succ_pos _
    | succ room =>
      rw [obstacle?, obstacleEntries?_eq_findSome?] at deep
      obtain ⟨e, member, inner⟩ := List.exists_of_findSome?_eq_some deep
      have child : e.2 ∈ (Value.map name kind es).children := Value.mem_children_of_entry member
      exact Nat.lt_of_le_of_lt (ih e member inner) (Value.depth_child_lt child)

theorem not_acyclic_of_circular {v : Value} {room : Nat}
    (met : obstacle? room v = some .circular) : ¬ v.Acyclic := by
  induction v using Value.treeInduction generalizing room with
  | scalar | set => cases met
  | again m => exact fun acyclic => acyclic.at_root
  | seq name kind items ih =>
    cases room with
    | zero => cases met
    | succ room =>
      rw [obstacle?, obstacleItems?_eq_findSome?] at met
      obtain ⟨v, member, inner⟩ := List.exists_of_findSome?_eq_some met
      exact fun acyclic => ih v member inner (acyclic.at_child member)
  | map name kind es ih =>
    cases room with
    | zero => cases met
    | succ room =>
      rw [obstacle?, obstacleEntries?_eq_findSome?] at met
      obtain ⟨e, member, inner⟩ := List.exists_of_findSome?_eq_some met
      exact fun acyclic =>
        ih e member inner (acyclic.at_child (Value.mem_children_of_entry member))

theorem obstacle?_of_deep {v : Value} (acyclic : v.Acyclic) {room : Nat} (deep : room < v.depth) :
    obstacle? room v = some .tooDeep := by
  cases met : obstacle? room v with
  | none => exact absurd (depth_le_of_obstacle? met) (Nat.not_le_of_lt deep)
  | some o => cases o with
    | tooDeep => rfl
    | circular => exact absurd acyclic (not_acyclic_of_circular met)

theorem isUndefined_of_obstacle? {v : Value} {room : Nat} {o : Obstacle}
    (met : obstacle? room v = some o) : v.isUndefined = false := by
  cases absent : v.isUndefined with
  | false => rfl
  | true =>
    rw [Value.isUndefined_iff.mp absent] at met
    cases met

end Conform.Json
