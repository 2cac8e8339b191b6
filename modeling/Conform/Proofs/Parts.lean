import Conform.Shape.Basic

/-!
Parts of shapes and of values. Proofs about a shape go from its children to the
shape, and a condition on every node of a shape, or on every key inside a value,
is stated once for all of them. Opening a container keeps such conditions, also
where the container takes the place of its own name.
-/
namespace Conform

/-- Induction on a type, where lists of members and of fields give one hypothesis for each. -/
theorem TypeExpr.treeInduction {P : TypeExpr → Prop}
    (text : P .text) (int : P .int) (float : P .float) (bool : P .bool) (none : P .none)
    (any : P .any) (undefined : P .undefined) (symbol : P .symbol) (named : ∀ cls, P (.named cls))
    (list : ∀ item, P item → P (.list item))
    (record : ∀ item, P item → P (.record item))
    (tuple : ∀ items, (∀ t ∈ items, P t) → P (.tuple items))
    (literal : ∀ tag values, P (.literal tag values))
    (union : ∀ members, (∀ t ∈ members, P t) → P (.union members))
    (pipe : ∀ members, (∀ t ∈ members, P t) → P (.pipe members))
    (struct : ∀ tag fields, (∀ field ∈ fields, P field.2.1) → P (.struct tag fields))
    (t : TypeExpr) : P t :=
  @TypeExpr.rec P (fun ts => ∀ t ∈ ts, P t) (fun fields => ∀ field ∈ fields, P field.2.1)
    (fun field => P field.2.1) (fun type => P type.1)
    text int float bool none any undefined symbol named list record tuple literal union pipe struct
    (by simp) (fun _ _ head tail => by simpa using ⟨head, tail⟩)
    (by simp) (fun _ _ head tail => List.forall_mem_cons.mpr ⟨head, tail⟩)
    (fun _ _ second => second) (fun _ _ first => first) t

namespace Shape

theorem treeInduction {P : Shape → Prop}
    (atomic : ∀ kind, P (.atomic kind))
    (literal : ∀ tag candidates, P (.literal tag candidates))
    (optional : ∀ base, P base → P (.optional base))
    (nullable : ∀ base, P base → P (.nullable base))
    (array : ∀ item, P item → P (.array item))
    (record : ∀ item, P item → P (.record item))
    (tuple : ∀ items, (∀ s ∈ items, P s) → P (.tuple items))
    (either : ∀ left right, P left → P right → P (.either left right))
    (anyOf : ∀ alternatives, (∀ s ∈ alternatives, P s) → P (.anyOf alternatives))
    (both : ∀ left right, P left → P right → P (.both left right))
    (merge : ∀ tag left right, P left → P right → P (.merge tag left right))
    (refined : ∀ base refine, P base → P (.refined base refine))
    (custom : ∀ check type, P (.custom check type))
    (struct : ∀ tag closed fields, (∀ field ∈ fields, P field.2) → P (.struct tag closed fields))
    (s : Shape) : P s :=
  @Shape.rec P (fun ss => ∀ s ∈ ss, P s) (fun fields => ∀ field ∈ fields, P field.2)
    (fun field => P field.2) atomic literal optional nullable array record tuple either anyOf
    both merge refined custom struct
    (by simp) (fun _ _ head tail => by simpa using ⟨head, tail⟩)
    (by simp) (fun _ _ head tail => by simpa using ⟨head, fun a b => tail (a, b)⟩)
    (fun _ _ second => second) s

def children : Shape → List Shape
  | .optional s | .nullable s | .array s | .record s | .refined s _ => [s]
  | .tuple ss | .anyOf ss => ss
  | .either s t | .both s t | .merge _ s t => [s, t]
  | .struct _ _ fields => fields.map (·.2)
  | .atomic _ | .literal .. | .custom .. => []

theorem childInduction {P : Shape → Prop}
    (step : ∀ s : Shape, (∀ c ∈ s.children, P c) → P s) (s : Shape) : P s := by
  induction s using treeInduction with
  | atomic | literal | custom => exact step _ fun c child => by cases child
  | optional base ih | nullable base ih | array item ih | record item ih | refined base refine ih =>
    exact step _ (List.forall_mem_singleton.mpr ih)
  | tuple ss ih | anyOf ss ih => exact step _ ih
  | either left right first second | both left right first second
  | merge tag left right first second =>
    exact step _ (List.forall_mem_cons.mpr ⟨first, List.forall_mem_singleton.mpr second⟩)
  | struct tag closed fields ih =>
    refine step _ fun c child => ?_
    obtain ⟨field, member, rfl⟩ := List.mem_map.mp child
    exact ih field member

def Builtin : Shape → Prop
  | .refined .. | .custom .. => False
  | _ => True

theorem field_child {tag : Nat} {closed : Bool} {fields : List (String × Shape)}
    {field : String × Shape} (member : field ∈ fields) :
    field.2 ∈ (struct tag closed fields).children :=
  List.mem_map.mpr ⟨field, member, rfl⟩

inductive Every (p : Shape → Prop) : Shape → Prop where
  | node {s : Shape} (here : p s) (inside : ∀ c ∈ s.children, Every p c) : Every p s

theorem Every.leaf {p : Shape → Prop} {s : Shape} (here : p s) (alone : s.children = []) :
    Every p s :=
  .node here fun c child => by simp [alone] at child

theorem Every.at_root {p : Shape → Prop} {s : Shape} (all : Every p s) : p s := by
  cases all with
  | node here inside => exact here

theorem Every.at_child {p : Shape → Prop} {s c : Shape} (all : Every p s)
    (child : c ∈ s.children) : Every p c := by
  cases all with
  | node here inside => exact inside c child

theorem Every.mono {p q : Shape → Prop} {s : Shape} (all : Every p s)
    (weaker : ∀ s, p s → q s) : Every q s := by
  induction all with
  | node here inside ih => exact .node (weaker _ here) ih

end Shape

def Container.values : Container → List Value
  | .seq items => items
  | .map entries => entries.map (·.2)

namespace Value

theorem treeInduction {P : Value → Prop}
    (scalar : ∀ a, P (.scalar a))
    (seq : ∀ name kind items, (∀ v ∈ items, P v) → P (.seq name kind items))
    (map : ∀ name kind entries, (∀ e ∈ entries, P e.2) → P (.map name kind entries))
    (set : ∀ member, P (.set member))
    (again : ∀ n, P (.again n))
    (v : Value) : P v :=
  @Value.rec P (fun vs => ∀ v ∈ vs, P v) (fun es => ∀ e ∈ es, P e.2) (fun e => P e.2)
    scalar seq map set again
    (by simp) (fun _ _ head tail => by simpa using ⟨head, tail⟩)
    (by simp) (fun _ _ head tail => by simpa using ⟨head, fun a b => tail (a, b)⟩)
    (fun _ _ second => second) v

mutual

def EveryKey (p : Key → Prop) : Value → Prop
  | .seq _ _ items => EveryKeyOfItems p items
  | .map _ _ entries => EveryKeyOfEntries p entries
  | _ => True
termination_by structural v => v

def EveryKeyOfItems (p : Key → Prop) : List Value → Prop
  | [] => True
  | v :: vs => EveryKey p v ∧ EveryKeyOfItems p vs
termination_by structural vs => vs

def EveryKeyOfEntries (p : Key → Prop) : List (Key × Value) → Prop
  | [] => True
  | (k, v) :: es => p k ∧ EveryKey p v ∧ EveryKeyOfEntries p es
termination_by structural es => es

end

variable {p : Key → Prop} {n : Nat} {c : Value}

theorem everyKeyOfItems_iff {vs : List Value} :
    EveryKeyOfItems p vs ↔ ∀ v ∈ vs, EveryKey p v := by
  induction vs with
  | nil => simp [EveryKeyOfItems]
  | cons v vs ih => simp [EveryKeyOfItems, ih]

theorem everyKeyOfEntries_iff {es : List (Key × Value)} :
    EveryKeyOfEntries p es ↔ ∀ e ∈ es, p e.1 ∧ EveryKey p e.2 := by
  induction es with
  | nil => simp [EveryKeyOfEntries]
  | cons e es ih => simp [EveryKeyOfEntries, ih, and_assoc]

mutual

theorem everyKey_fill (closed : EveryKey p c) :
    ∀ v : Value, EveryKey p v → EveryKey p (fill n c v)
  | .scalar _, _ => trivial
  | .set _, _ => trivial
  | .again m, _ => by
    by_cases same : m = n
    · simpa [fill, same] using closed
    · simp [fill, same, EveryKey]
  | .seq name kind items, all => by
    by_cases same : name = some n
    · simpa [fill, same] using all
    · simpa [fill, same, EveryKey] using everyKeyOfItems_fill closed items all
  | .map name kind entries, all => by
    by_cases same : name = some n
    · simpa [fill, same] using all
    · simpa [fill, same, EveryKey] using everyKeyOfEntries_fill closed entries all
termination_by structural v => v

theorem everyKeyOfItems_fill (closed : EveryKey p c) :
    ∀ vs : List Value, EveryKeyOfItems p vs → EveryKeyOfItems p (fillItems n c vs)
  | [], _ => trivial
  | v :: vs, ⟨head, tail⟩ => ⟨everyKey_fill closed v head, everyKeyOfItems_fill closed vs tail⟩
termination_by structural vs => vs

theorem everyKeyOfEntries_fill (closed : EveryKey p c) :
    ∀ es : List (Key × Value), EveryKeyOfEntries p es → EveryKeyOfEntries p (fillEntries n c es)
  | [], _ => trivial
  | (_, v) :: es, ⟨key, head, tail⟩ =>
    ⟨key, everyKey_fill closed v head, everyKeyOfEntries_fill closed es tail⟩
termination_by structural es => es

end

theorem everyKey_items {name : Option Nat} {kind : Mutability} {xs : List Value}
    (all : EveryKey p (.seq name kind xs)) {x : Value} (member : x ∈ items name kind xs) :
    EveryKey p x := by
  cases name with
  | none => exact everyKeyOfItems_iff.mp all x member
  | some n =>
    have filled := everyKeyOfItems_fill (n := n) all xs all
    exact everyKeyOfItems_iff.mp filled x member

theorem everyKey_entries {name : Option Nat} {kind : Mutability} {es : List (Key × Value)}
    (all : EveryKey p (.map name kind es)) {e : Key × Value} (member : e ∈ entries name kind es) :
    p e.1 ∧ EveryKey p e.2 := by
  cases name with
  | none => exact everyKeyOfEntries_iff.mp all e member
  | some n =>
    have filled := everyKeyOfEntries_fill (n := n) all es all
    exact everyKeyOfEntries_iff.mp filled e member

theorem everyKey_container {v : Value} {opened : Container} (all : EveryKey p v)
    (opens : v.container? = some opened) :
    (∀ x ∈ opened.values, EveryKey p x) ∧
      ∀ es, opened = .map es → ∀ e ∈ es, p e.1 := by
  cases v with
  | seq name kind xs =>
    cases opens
    exact ⟨fun x member => everyKey_items all member, fun es impossible => by cases impossible⟩
  | map name kind es =>
    cases opens
    constructor
    · intro x member
      obtain ⟨e, entry, same⟩ := List.mem_map.mp member
      subst same
      exact (everyKey_entries all entry).2
    · intro fs same e entry
      cases same
      exact (everyKey_entries all entry).1
  | _ => cases opens

end Value
end Conform
