import Conform.Proofs.Nesting
import Mathlib.Tactic.ByContra

/-!
Containers inside themselves. A value is closed when every name in it stands inside a
container that has the name. What is taken out of a closed value is closed too, and it
meets a name exactly where a container comes back inside itself. So a closed value
without names is one from which no container can be taken that contains itself.
-/
namespace Conform.Value

def name? : Value → Option Nat
  | .seq name _ _ => name
  | .map name _ _ => name
  | _ => none

/-- The name occurs in the value, and not inside a container that has it. -/
inductive Refers (n : Nat) : Value → Prop where
  | again : Refers n (.again n)
  | inside {v w : Value} (other : v.name? ≠ some n) (child : w ∈ v.children)
      (inner : Refers n w) : Refers n v

/-- Every name stands inside a container that has it. -/
def Closed (v : Value) : Prop := ∀ n, ¬ v.Refers n

/-- The container can be taken out of one of its own items. -/
def InsideItself (v : Value) : Prop :=
  ∃ c x, v.container? = some c ∧ x ∈ c.values ∧ x.Part v

def Loops (v : Value) : Prop := ∃ n, v.name? = some n ∧ ∃ w ∈ v.children, w.Refers n

variable {n m : Nat} {c v w x : Value}

theorem refers_iff :
    v.Refers n ↔ v = .again n ∨ v.name? ≠ some n ∧ ∃ w ∈ v.children, w.Refers n := by
  constructor
  · rintro (_ | ⟨other, child, inner⟩)
    · exact Or.inl rfl
    · exact Or.inr ⟨other, _, child, inner⟩
  · rintro (rfl | ⟨other, w, child, inner⟩)
    · exact .again
    · exact .inside other child inner

theorem fill_named (named : v.name? = some n) : fill n c v = v := by
  cases v with
  | seq name kind items => exact if_pos named
  | map name kind es => exact if_pos named
  | _ => cases named

theorem fill_other (other : v.name? ≠ some n) (unnamed : v ≠ .again n) :
    (fill n c v).name? = v.name? ∧ (fill n c v).children = v.children.map (fill n c) := by
  cases v with
  | scalar | set => exact ⟨rfl, rfl⟩
  | again m =>
    have apart : m ≠ n := fun same => unnamed (same ▸ rfl)
    rw [fill, if_neg apart]
    exact ⟨rfl, rfl⟩
  | seq name kind items =>
    rw [fill, if_neg (show name ≠ some n from other), fillItems_eq_map]
    exact ⟨rfl, rfl⟩
  | map name kind es =>
    rw [fill, if_neg (show name ≠ some n from other), fillEntries_eq_map]
    refine ⟨rfl, ?_⟩
    rw [children, children, List.map_map, List.map_map]
    rfl

theorem ne_again_of_child (child : w ∈ v.children) : v ≠ .again n := by
  rintro rfl
  cases child

theorem mem_children_fill (other : v.name? ≠ some n) (child : w ∈ v.children) :
    fill n c w ∈ (fill n c v).children := by
  rw [(fill_other other (ne_again_of_child child)).2]
  exact List.mem_map_of_mem child

theorem fill_of_not_refers (free : ¬ v.Refers n) : fill n c v = v := by
  induction v using treeInduction with
  | scalar | set => rfl
  | again m => exact if_neg fun same => free (by rw [same]; exact .again)
  | seq name kind items ih =>
    rw [fill]
    split
    · rfl
    · rename_i other
      have each : items.map (fill n c) = items.map id :=
        List.map_congr_left fun v member =>
          ih v member fun inner => free (.inside other member inner)
      rw [fillItems_eq_map, each, List.map_id]
  | map name kind es ih =>
    rw [fill]
    split
    · rfl
    · rename_i other
      have each : (es.map fun e => (e.1, fill n c e.2)) = es.map id :=
        List.map_congr_left fun e member => by
          rw [ih e member fun inner => free (.inside other (mem_children_of_entry member) inner)]
          rfl
      rw [fillEntries_eq_map, each, List.map_id]

theorem refers_of_refers_fill (refers : (fill n c v).Refers m) :
    c.Refers m ∨ v.Refers m ∧ m ≠ n := by
  induction v using childInduction with
  | step v ih =>
    by_cases unnamed : v = .again n
    · subst unnamed
      rw [fill, if_pos rfl] at refers
      exact Or.inl refers
    · by_cases named : v.name? = some n
      · rw [fill_named named] at refers
        rcases refers_iff.mp refers with rfl | ⟨other, _⟩
        · cases named
        · exact Or.inr ⟨refers, fun same => other (same ▸ named)⟩
      · obtain ⟨kept, children⟩ := fill_other (c := c) named unnamed
        rcases refers_iff.mp refers with rest | ⟨other, x, child, inner⟩
        · cases v with
          | again k =>
            have apart : k ≠ n := fun same => unnamed (same ▸ rfl)
            rw [fill, if_neg apart] at rest
            cases rest
            exact Or.inr ⟨.again, apart⟩
          | scalar | set => cases rest
          | seq name | map name =>
            rw [fill, if_neg (show name ≠ some n from named)] at rest
            cases rest
        · rw [children] at child
          obtain ⟨w, member, rfl⟩ := List.mem_map.mp child
          rw [kept] at other
          exact (ih w member inner).imp id fun free => ⟨.inside other member free.1, free.2⟩

theorem Refers.fill (refers : v.Refers m) (apart : m ≠ n) : (fill n c v).Refers m := by
  induction refers with
  | again =>
    rw [Value.fill, if_neg apart]
    exact .again
  | @inside v w other child inner ih =>
    by_cases named : v.name? = some n
    · rw [fill_named named]
      exact .inside other child inner
    · refine .inside ?_ (mem_children_fill named child) ih
      rwa [(fill_other named (ne_again_of_child child)).1]

/-- What a container is written with, as it is taken out of the container. -/
def taken (v w : Value) : Value :=
  match v.name? with
  | some n => fill n v w
  | none => w

theorem taken_named (named : v.name? = some n) : v.taken w = fill n v w := by
  rw [taken, named]

theorem taken_unnamed (unnamed : v.name? = none) : v.taken w = w := by
  rw [taken, unnamed]

theorem values_eq {d : Container} (opened : v.container? = some d) :
    d.values = v.children.map v.taken := by
  cases v with
  | seq name kind items =>
    cases opened
    cases name with
    | none => exact (List.map_id _).symm
    | some n => exact fillItems_eq_map n _ _
  | map name kind es =>
    cases opened
    cases name with
    | none => exact (List.map_id _).symm
    | some n =>
      change (fillEntries n _ es).map (·.2) = (es.map (·.2)).map (fill n _)
      rw [fillEntries_eq_map, List.map_map, List.map_map]
      rfl
  | _ => cases opened

theorem mem_values_iff {d : Container} (opened : v.container? = some d) :
    x ∈ d.values ↔ ∃ w ∈ v.children, v.taken w = x := by
  rw [values_eq opened, List.mem_map]

theorem exists_container_of_child (child : w ∈ v.children) : ∃ d, v.container? = some d := by
  cases v with
  | seq | map => exact ⟨_, rfl⟩
  | _ => cases child

theorem Closed.part (closed : v.Closed) (part : v.Part w) : w.Closed := by
  induction part with
  | whole => exact closed
  | @inside w x d _ opened member ih =>
    obtain ⟨y, child, rfl⟩ := (mem_values_iff opened).mp member
    intro m refers
    cases named : w.name? with
    | none =>
      rw [taken_unnamed named] at refers
      exact ih m (.inside (by simp [named]) child refers)
    | some n =>
      rw [taken_named named] at refers
      rcases refers_of_refers_fill refers with whole | ⟨inner, apart⟩
      · exact ih m whole
      · exact ih m (.inside (by simp [named, apart.symm]) child inner)

inductive AtDepth (p : Value → Prop) : Nat → Value → Prop where
  | here {v : Value} (holds : p v) : AtDepth p 0 v
  | inside {k : Nat} {v w : Value} (child : w ∈ v.children) (inner : AtDepth p k w) :
      AtDepth p (k + 1) v

section

variable {p : Value → Prop} {k : Nat} (kept : ∀ n c v, p v → p (Value.fill n c v))
include kept

theorem AtDepth.fill (found : AtDepth p k v) : AtDepth p k (fill n c v) := by
  induction found with
  | here holds => exact .here (kept n c _ holds)
  | @inside k v w child inner ih =>
    by_cases named : v.name? = some n
    · rw [fill_named named]
      exact .inside child inner
    · exact .inside (mem_children_fill named child) ih

/-- A condition that filling keeps holds of a part of the value. The induction is on the
    number of steps, since what is taken out of a container can be larger than the container. -/
theorem AtDepth.exists_part (found : AtDepth p k v) : ∃ w, v.Part w ∧ p w := by
  induction k generalizing v with
  | zero =>
    cases found with
    | here holds => exact ⟨v, .whole, holds⟩
  | succ k ih =>
    cases found with
    | @inside _ _ w child inner =>
      obtain ⟨d, opened⟩ := exists_container_of_child child
      have member := (mem_values_iff opened).mpr ⟨w, child, rfl⟩
      have further : AtDepth p k (v.taken w) := by
        rw [taken]
        split
        · exact inner.fill kept
        · exact inner
      obtain ⟨u, part, holds⟩ := ih further
      exact ⟨u, (Part.item opened member).trans part, holds⟩

end

theorem Refers.atDepth (refers : w.Refers n) : ∃ k, AtDepth (· = c) k (Value.fill n c w) := by
  induction refers with
  | again => exact ⟨0, .here (if_pos rfl)⟩
  | inside other child _ ih =>
    obtain ⟨k, found⟩ := ih
    exact ⟨k + 1, .inside (mem_children_fill other child) found⟩

theorem Loops.fill (loops : v.Loops) : (fill n c v).Loops := by
  obtain ⟨m, named, w, child, refers⟩ := loops
  by_cases same : v.name? = some n
  · rw [fill_named same]
    exact ⟨m, named, w, child, refers⟩
  · have apart : m ≠ n := fun equal => same (equal ▸ named)
    refine ⟨m, ?_, _, mem_children_fill same child, refers.fill apart⟩
    rwa [(fill_other same (ne_again_of_child child)).1]

theorem Loops.insideItself (closed : v.Closed) (loops : v.Loops) : v.InsideItself := by
  obtain ⟨n, named, w, child, refers⟩ := loops
  obtain ⟨d, opened⟩ := exists_container_of_child child
  have member := (mem_values_iff opened).mpr ⟨w, child, taken_named named⟩
  obtain ⟨k, found⟩ := refers.atDepth (c := v)
  obtain ⟨_, part, rfl⟩ := found.exists_part fun n c u same => by
    rw [same]
    exact fill_of_not_refers (closed n)
  exact ⟨d, _, opened, member, part⟩

theorem refers_or_loops (cyclic : ¬ v.Acyclic) :
    (∃ n, v.Refers n) ∨ ∃ k, AtDepth Loops k v := by
  induction v using childInduction with
  | step v ih =>
    by_cases inner : ∀ w ∈ v.children, w.Acyclic
    · cases v with
      | again n => exact Or.inl ⟨n, .again⟩
      | _ => exact absurd (.node trivial inner) cyclic
    · obtain ⟨w, child, cyclic⟩ : ∃ w ∈ v.children, ¬ w.Acyclic := by
        simpa only [not_forall, exists_prop] using inner
      rcases ih w child cyclic with ⟨n, refers⟩ | ⟨k, found⟩
      · by_cases named : v.name? = some n
        · exact Or.inr ⟨0, .here ⟨n, named, w, child, refers⟩⟩
        · exact Or.inl ⟨n, .inside named child refers⟩
      · exact Or.inr ⟨k + 1, .inside child found⟩

theorem Acyclic.closed (acyclic : v.Acyclic) : v.Closed := by
  intro n refers
  induction refers with
  | again => exact acyclic.at_root
  | inside _ child _ ih => exact ih (acyclic.at_child child)

theorem Acyclic.not_insideItself (acyclic : v.Acyclic) : ¬ v.InsideItself := by
  rintro ⟨d, x, opened, member, part⟩
  have child := mem_children_of_acyclic acyclic opened member
  have back := (Acyclic.part (acyclic.at_child child) part).2
  exact Nat.not_le_of_lt (depth_child_lt child) back

/-- A closed value has no names in it exactly where nothing inside it contains itself. -/
theorem acyclic_iff (closed : v.Closed) :
    v.Acyclic ↔ ∀ w, v.Part w → ¬ w.InsideItself := by
  constructor
  · exact fun acyclic w part => (Acyclic.part acyclic part).1.not_insideItself
  · intro none
    by_contra cyclic
    rcases refers_or_loops cyclic with ⟨n, refers⟩ | ⟨k, found⟩
    · exact closed n refers
    · obtain ⟨w, part, loops⟩ := found.exists_part fun n c u loops => loops.fill
      exact none w part (loops.insideItself (closed.part part))

theorem Acyclic.every_iff {p : Value → Prop} (acyclic : v.Acyclic) :
    v.Every p ↔ ∀ w, v.Part w → p w := by
  constructor
  · intro all w part
    suffices w.Acyclic ∧ w.Every p from this.2.at_root
    induction part with
    | whole => exact ⟨acyclic, all⟩
    | inside _ opened member ih =>
      have child := mem_children_of_acyclic ih.1 opened member
      exact ⟨ih.1.at_child child, ih.2.at_child child⟩
  · intro parts
    induction v using childInduction with
    | step v ih =>
      refine .node (parts v .whole) fun w child => ?_
      obtain ⟨d, opened⟩ := exists_container_of_child child
      have member : w ∈ d.values := by
        refine (mem_values_iff opened).mpr ⟨w, child, ?_⟩
        rw [taken]
        split
        · exact fill_of_acyclic (acyclic.at_child child)
        · rfl
      exact ih w child (acyclic.at_child child) fun x part =>
        parts x ((Part.item opened member).trans part)

end Conform.Value
