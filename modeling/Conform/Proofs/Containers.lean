import Conform.Proofs.Keys
import Conform.Proofs.Lookup
import Conform.Proofs.Nesting
import Mathlib.Data.List.Nodup

/-!
One schema for the items of containers of different kinds. What is read item by item
is read by name in the same order, and every declared name is there. So a record, a
struct with a field for every name and a closed struct of the same fields run alike,
and on a list or tuple so do an array and a tuple, up to how they call an index.
-/
namespace Conform

theorem fresh_of_not_mem {α : Type} {es : List (String × α)} {name : String}
    (fresh : name ∉ es.map (·.1)) : ∀ e ∈ es, (e.1 == name) = false :=
  fun _ member => beq_false_of_ne fun same => fresh (same ▸ List.mem_map_of_mem member)

theorem entriesBy_of_nodup {α : Type} {pairs : List (String × α)}
    (distinct : (pairs.map (·.1)).Nodup) : entriesBy (· == ·) pairs = pairs :=
  entriesBy_of_pairwise ((List.pairwise_map.mp distinct).imp beq_false_of_ne)

/-- The parts of a container: each is met under its name in order, and found by it. -/
structure Container.HasParts (c : Container) (parts : List (String × Value)) : Prop where
  labelled : c.labelled = parts.map fun part => (.ok (.name part.1), part.2)
  lookup : ∀ part ∈ parts, c.lookup part.1 = .ok part.2

theorem Container.hasParts_seq {items : List Value} (short : items.length ≤ Nat.pow 10 digitLimit) :
    (Container.seq items).HasParts (items.mapIdx fun i v => (indexName i, v)) where
  labelled := by
    apply List.ext_getElem?
    intro i
    simp [Container.labelled, Function.comp_def]
  lookup := by
    intro part member
    obtain ⟨i, inside, rfl⟩ := List.mem_mapIdx.mp member
    exact lookup_item (List.getElem?_eq_getElem inside) (not_long_of_lt inside short)

theorem Container.hasParts_map {parts : List (String × Value)} (distinct : (parts.map (·.1)).Nodup) :
    (Container.map (parts.map fun part => (.scalar (.text part.1), part.2))).HasParts parts where
  labelled := by
    rw [Container.labelled, List.map_map]
    rfl
  lookup := by
    intro part member
    have texts : ((parts.map fun part => ((Key.scalar (.text part.1), part.2) : Key × Value)).map
        fun e => e.1.text?).Nodup := by
      have form : ((parts.map fun part => ((Key.scalar (.text part.1), part.2) : Key × Value)).map
          fun e => e.1.text?) = (parts.map (·.1)).map some := by
        rw [List.map_map, List.map_map]
        rfl
      rw [form]
      exact List.Nodup.map (Option.some_injective String) distinct
    have found := valueUnder?_of_text texts (List.mem_map_of_mem member) rfl
    rw [Container.lookup, found]
    rfl

namespace Check

theorem andThen_accept (r : Run Verdict) : (andThen r fun _ => accept) = r := by
  obtain ⟨events, result⟩ := r
  cases result with
  | error fault => rfl
  | ok verdict => cases verdict <;> exact congrArg (Run.mk · _) (List.append_nil events)

end Check

namespace Shape

open Check

theorem checkFields_parts {s : Shape} {c : Container} {parts : List (String × Value)}
    (lookup : ∀ part ∈ parts, c.lookup part.1 = .ok part.2) :
    checkFields (parts.map fun part => (part.1, s)) c =
      checkLabelled s.check (parts.map fun part => (.ok (.name part.1), part.2)) := by
  induction parts with
  | nil => rfl
  | cons part parts ih =>
    rw [List.forall_mem_cons] at lookup
    rw [List.map_cons, List.map_cons, checkFields, checkLabelled, lookup.1, ih lookup.2]
    rfl

theorem checkDeclared_parts (names : List String) {parts : List (String × Value)}
    (declared : ∀ part ∈ parts, part.1 ∈ names) :
    checkDeclared names (parts.map fun part => (.ok (.name part.1), part.2)) = accept := by
  induction parts with
  | nil => rfl
  | cons part parts ih =>
    rw [List.forall_mem_cons] at declared
    have found : names.any (Segment.name part.1).isName = true :=
      List.any_eq_true.mpr ⟨part.1, declared.1, beq_self_eq_true part.1⟩
    rw [List.map_cons, checkDeclared]
    change (if names.any (Segment.name part.1).isName = true then _ else _) = _
    rw [if_pos found]
    exact ih declared.2

/-- A struct with a field for every part of a value runs as a record does, closed or not. -/
theorem check_struct_parts {s : Shape} {v : Value} {c : Container} {parts : List (String × Value)}
    (opened : v.container? = some c) (has : c.HasParts parts) (tag : Nat) (closed : Bool) :
    check (.struct tag closed (parts.map fun part => (part.1, s))) v = check (.record s) v := by
  rw [check, check]
  simp only [opened]
  rw [checkFields_parts has.lookup, has.labelled]
  cases closed with
  | false => exact andThen_accept _
  | true =>
    rw [if_pos rfl, checkDeclared_parts]
    · exact andThen_accept _
    · intro part member
      rw [List.map_map]
      exact List.mem_map_of_mem member

theorem checkEach_replicate (s : Shape) (items : List Value) (start : Nat) :
    checkEach (List.replicate items.length s) start items = checkItems s.check start items := by
  induction items generalizing start with
  | nil => rfl
  | cons v vs ih =>
    rw [List.length_cons, List.replicate_succ, checkEach, checkItems, ih]

theorem check_tuple_replicate {s : Shape} {v : Value} {items : List Value}
    (opened : v.items? = some items) :
    check (.tuple (List.replicate items.length s)) v = check (.array s) v := by
  rw [check, check]
  simp only [opened, List.length_replicate, if_true]
  exact checkEach_replicate s items 0

/-- Two runs do the same with the same outcome, except that the first calls a place by its
    index where the second calls it by the index as a name. -/
structure AlikeUpTo (n : Nat) (r q : Run Verdict) : Prop where
  events : q.events = r.events
  results : (∃ fault, r.result = .error fault ∧ q.result = .error fault) ∨
    (r.result = .ok .accept ∧ q.result = .ok .accept) ∨
      ∃ (i : Nat) (f : Failure), i < n ∧ r.result = .ok (.reject (f.within (.index i))) ∧
        q.result = .ok (.reject (f.within (.name (indexName i))))

theorem AlikeUpTo.step {n i : Nat} (below : i < n) (r : Run Verdict) {next after : Run Verdict}
    (rest : AlikeUpTo n next after) :
    AlikeUpTo n (andThen (inside (.index i) r) fun _ => next)
      (andThen (inside (.name (indexName i)) r) fun _ => after) := by
  obtain ⟨events, result⟩ := r
  cases result with
  | error fault => exact ⟨rfl, Or.inl ⟨fault, rfl, rfl⟩⟩
  | ok verdict =>
    cases verdict with
    | accept => exact ⟨congrArg ((events ++ []) ++ ·) rest.events, rest.results⟩
    | reject f => exact ⟨rfl, Or.inr (Or.inr ⟨i, f, below, rfl, rfl⟩)⟩

theorem alike_items (check : Check) (items : List Value) (start : Nat) :
    AlikeUpTo (start + items.length) (checkItems check start items)
      (checkLabelled check
        (items.mapIdx fun i v => (.ok (.name (indexName (start + i))), v))) := by
  induction items generalizing start with
  | nil => exact ⟨rfl, Or.inr (Or.inl ⟨rfl, rfl⟩)⟩
  | cons v vs ih =>
    have shifted : (fun (i : Nat) (v : Value) =>
          ((.ok (.name (indexName (start + (i + 1)))), v) : Except Fault Segment × Value)) =
        fun i v => (.ok (.name (indexName (start + 1 + i))), v) := by
      funext i v
      rw [Nat.add_assoc, Nat.add_comm 1]
    have rest := ih (start + 1)
    rw [Nat.add_assoc, Nat.add_comm 1] at rest
    rw [List.mapIdx_cons, List.length_cons, shifted]
    have below : start < start + (vs.length + 1) := by omega
    exact AlikeUpTo.step below (check v) rest

/-- A record runs on a list or tuple as an array does, up to how indices are called. -/
theorem alike_array_record {s : Shape} {v : Value} {items : List Value}
    (opened : v.items? = some items) :
    AlikeUpTo items.length (check (.array s) v) (check (.record s) v) := by
  have alike := alike_items s.check items 0
  simp only [Nat.zero_add] at alike
  rw [check, check]
  simp only [opened, Value.container?_of_items? opened]
  exact alike

end Shape

theorem Segment.render_indexName {i : Nat} (short : i < Nat.pow 10 digitLimit) :
    (Segment.name (indexName i)).render = (Segment.index i).render := by
  have written : integerText (i : Int) = .ok (Nat.toDigits 10 i) := by
    rw [integerText, Int.natAbs_natCast, if_pos short, if_neg (Int.not_lt.mpr (by omega))]
  rw [render, render, display, display, written, indexName_toList]

theorem Failure.render_within {s t : Segment} (same : s.render = t.render) (f : Failure) :
    (f.within s).render = (f.within t).render := by
  have place : renderPath (s :: f.path) = renderPath (t :: f.path) := by
    rw [renderPath, renderPath, List.mapM_cons, List.mapM_cons, same]
  unfold render within
  simp only [place]

/-- Two validations of a list or tuple end alike, except that the first calls the place of a
    failure by its index where the second calls it by the index as a name. -/
def AgreeOnItems (n : Nat) (r q : Except Fault (Except ShapeError Value)) : Prop :=
  (∃ fault, r = .error fault ∧ q = .error fault) ∨
    (∃ v, r = .ok (.ok v) ∧ q = .ok (.ok v)) ∨
      ∃ (message reason : String) (i : Nat) (rest : List Segment), i < n ∧
        r = .ok (.error ⟨message, .index i :: rest, reason⟩) ∧
        q = .ok (.error ⟨message, .name (indexName i) :: rest, reason⟩)

namespace Schema

theorem shape_of {shape : Shape} {s : Schema} (built : of shape = .ok s) : s.shape = shape := by
  unfold of at built
  split at built
  · cases built
    rfl
  · cases built

end Schema

/-- The schema of named items, and those of structs with a field for every name. -/
structure ItemsByName (h : Schema) (names : List String) where
  record : Schema
  struct : Schema
  closed : Schema
  record_built : h.record = .ok record
  struct_built : ∃ tag next, (Schema.struct false (names.map fun name => (name, h))).run tag =
    .ok (struct, next)
  closed_built : ∃ tag next, (Schema.struct true (names.map fun name => (name, h))).run tag =
    .ok (closed, next)

theorem Schema.struct_run (closed : Bool) (fields : List (String × Schema)) (tag : Nat) :
    (struct closed fields).run tag =
      (of (.struct tag closed
        (entriesBy (· == ·) (fields.map fun field => (field.1, field.2.shape))))).map
          fun s => (s, tag + 1) := by
  change (StateT.lift (of _)) (tag + 1) = _
  cases of (.struct tag closed
    (entriesBy (· == ·) (fields.map fun field => (field.1, field.2.shape)))) <;> rfl

theorem Schema.shape_struct {h : Schema} {names : List String} (distinct : names.Nodup)
    {closed : Bool} {tag next : Nat} {s : Schema}
    (built : (struct closed (names.map fun name => (name, h))).run tag = .ok (s, next)) :
    s.shape = .struct tag closed (names.map fun name => (name, h.shape)) := by
  have fields : (names.map fun name => (name, h)).map (fun field => (field.1, field.2.shape)) =
      names.map fun name => (name, h.shape) := by
    rw [List.map_map]
    rfl
  have kept : ((names.map fun name => (name, h.shape)).map (·.1)).Nodup := by
    rw [List.map_map]
    exact (List.map_id names).symm ▸ distinct
  rw [struct_run, fields, entriesBy_of_nodup kept] at built
  cases opened : of (.struct tag closed (names.map fun name => (name, h.shape))) with
  | error fault =>
    rw [opened] at built
    cases built
  | ok t =>
    rw [opened] at built
    cases built
    exact shape_of opened

theorem ItemsByName.agree {h : Schema} {names : List String} (checkers : ItemsByName h names)
    (distinct : names.Nodup) {v : Value} {c : Container} (opened : v.container? = some c)
    {parts : List (String × Value)} (named : parts.map (·.1) = names) (has : c.HasParts parts) :
    checkers.struct.validate v = checkers.record.validate v ∧
      checkers.closed.validate v = checkers.record.validate v := by
  subst named
  have alike : ∀ {closed : Bool} {tag next : Nat} {s : Schema},
      (Schema.struct closed ((parts.map (·.1)).map fun name => (name, h))).run tag = .ok (s, next) →
        s.validate v = checkers.record.validate v := by
    intro closed tag next s built
    apply Schema.validate_congr
    rw [Schema.shape_struct distinct built, Schema.shape_of checkers.record_built, List.map_map]
    exact Shape.check_struct_parts opened has tag closed
  obtain ⟨_, _, struct⟩ := checkers.struct_built
  obtain ⟨_, _, closed⟩ := checkers.closed_built
  exact ⟨alike struct, alike closed⟩

theorem Shape.AlikeUpTo.agree {n : Nat} (short : n ≤ Nat.pow 10 digitLimit) {s t : Schema}
    {v : Value} (alike : AlikeUpTo n (s.shape.check v) (t.shape.check v)) :
    AgreeOnItems n (s.validate v).result (t.validate v).result := by
  rw [Schema.result_validate, Schema.result_validate]
  rcases alike.results with ⟨fault, first, second⟩ | ⟨first, second⟩ | ⟨i, f, below, first, second⟩
  · rw [first, second]
    exact Or.inl ⟨fault, rfl, rfl⟩
  · rw [first, second]
    exact Or.inr (Or.inl ⟨v, rfl, rfl⟩)
  · have same := f.render_within (Segment.render_indexName (Nat.lt_of_lt_of_le below short))
    rw [first, second]
    simp only [Failure.toError, same]
    cases (f.within (.index i)).render with
    | error fault => exact Or.inl ⟨fault, rfl, rfl⟩
    | ok message => exact Or.inr (Or.inr ⟨message, _, i, f.path, below, rfl, rfl⟩)

/-- The checkers of containers agree with one another. On a list or tuple they differ in
    whether a failure is at an index or at the name of the index, on a map not at all. The
    bound is that on the digits of an index that is looked up by name, and is far above the
    length of any list that fits a machine. -/
theorem container_checkers_agree (h : Schema) :
    (∀ (v : Value) (items : List Value) (array tuple : Schema)
        (byName : ItemsByName h ((List.range items.length).map indexName)),
      v.items? = some items → items.length ≤ Nat.pow 10 digitLimit →
      h.array = .ok array → Schema.tuple (List.replicate items.length h) = .ok tuple →
        tuple.validate v = array.validate v ∧
        byName.struct.validate v = byName.record.validate v ∧
        byName.closed.validate v = byName.record.validate v ∧
        (byName.record.validate v).events = (array.validate v).events ∧
        AgreeOnItems items.length (array.validate v).result (byName.record.validate v).result) ∧
    ∀ (v : Value) (parts : List (String × Value)) (byName : ItemsByName h (parts.map (·.1))),
      v.container? = some (.map (parts.map fun part => (.scalar (.text part.1), part.2))) →
      (parts.map (·.1)).Nodup →
        byName.struct.validate v = byName.record.validate v ∧
        byName.closed.validate v = byName.record.validate v := by
  constructor
  · intro v items array tuple byName opened short arrayBuilt tupleBuilt
    have arrayShape := Schema.shape_of arrayBuilt
    have tupleShape := Schema.shape_of tupleBuilt
    rw [List.map_replicate] at tupleShape
    have alike : Shape.AlikeUpTo items.length (array.shape.check v)
        (byName.record.shape.check v) := by
      rw [arrayShape, Schema.shape_of byName.record_built]
      exact Shape.alike_array_record opened
    have names : (items.mapIdx fun i v => (indexName i, v)).map (·.1) =
        (List.range items.length).map indexName := by
      apply List.ext_getElem
      · simp
      · simp
    have distinct : ((List.range items.length).map indexName).Nodup :=
      List.Nodup.map (fun _ _ same => indexName_injective same) List.nodup_range
    obtain ⟨struct, closed⟩ := byName.agree distinct (Value.container?_of_items? opened) names
      (Container.hasParts_seq short)
    refine ⟨?_, struct, closed, ?_, alike.agree short⟩
    · apply Schema.validate_congr
      rw [arrayShape, tupleShape]
      exact Shape.check_tuple_replicate opened
    · rw [Schema.events_validate, Schema.events_validate]
      exact alike.events
  · intro v parts byName opened distinct
    exact byName.agree distinct opened rfl (Container.hasParts_map distinct)

def flag : Schema where
  shape := .atomic .boolean
  type := .bool
  typed := rfl

def flagsByName : ItemsByName flag ((List.range 2).map indexName) where
  record := ⟨.record (.atomic .boolean), .record .bool, rfl⟩
  struct := ⟨.struct 0 false [("0", .atomic .boolean), ("1", .atomic .boolean)],
    .struct 0 [("0", .bool, true), ("1", .bool, true)], rfl⟩
  closed := ⟨.struct 1 true [("0", .atomic .boolean), ("1", .atomic .boolean)],
    .struct 1 [("0", .bool, true), ("1", .bool, true)], rfl⟩
  record_built := rfl
  struct_built := ⟨0, 1, rfl⟩
  closed_built := ⟨1, 2, rfl⟩

def flags : Schema where
  shape := .array (.atomic .boolean)
  type := .list .bool
  typed := rfl

def flagPair : Schema where
  shape := .tuple [.atomic .boolean, .atomic .boolean]
  type := .tuple [.bool, .bool]
  typed := rfl

def halfFlags : Value := .list [.scalar (.bool true), .null]

def secondRefused (place : Segment) : ShapeError where
  message := "in 1: Expected boolean, got null"
  path := [place]
  reason := "Expected boolean, got null"

theorem halfFlags_refused :
    (flagPair.validate halfFlags).result = .ok (.error (secondRefused (.index 1))) ∧
      (flagsByName.closed.validate halfFlags).result =
        .ok (.error (secondRefused (.name "1"))) := by
  obtain ⟨pair, _, closed, _, agree⟩ := (container_checkers_agree flag).1 halfFlags
    [.scalar (.bool true), .null] flags flagPair flagsByName rfl
    (Digits.le_pow (by decide) (by decide)) rfl rfl
  have named : (flagsByName.record.validate halfFlags).result =
      .ok (.error (secondRefused (.name "1"))) := rfl
  rw [pair, closed, named]
  refine ⟨?_, rfl⟩
  rcases agree with ⟨_, _, stopped⟩ | ⟨_, _, accepted⟩ | ⟨message, reason, i, rest, _, first, same⟩
  · rw [named] at stopped
    cases stopped
  · rw [named] at accepted
    cases accepted
  · rw [named, secondRefused] at same
    simp only [Except.ok.injEq, Except.error.injEq, ShapeError.mk.injEq, List.cons.injEq,
      Segment.name.injEq] at same
    obtain ⟨rfl, ⟨index, rfl⟩, rfl⟩ := same
    have one : 1 = i := indexName_injective (show indexName 1 = indexName i from index)
    subst one
    exact first

end Conform
