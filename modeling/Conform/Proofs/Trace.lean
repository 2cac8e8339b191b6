import Conform.Proofs.Parts
import Conform.Proofs.Validation
import Conform.Shape.Refinement

/-!
Which checks are called in which order while a value is checked. Each node plans its
calls in the documented order and goes through them in turn: alternatives for as
long as they reject, everything else for as long as it accepts. What a run leaves
behind is what its calls leave behind, one after the other, whatever checks of one's
own do besides their verdicts.
-/
namespace Conform

/-- What a node calls: a shape that it is put together from, or its refinement. -/
inductive Callee where
  | part (s : Shape)
  | refinement (own : Check)

structure Call where
  callee : Callee
  value : Value

def Check.passes (r : Run Verdict) : Bool :=
  match r.result with
  | .ok .accept => true
  | _ => false

namespace Call

def run (call : Call) : Run Verdict :=
  match call.callee with
  | .part s => s.check call.value
  | .refinement own => own call.value

def accepted (call : Call) : Bool := Check.passes call.run

def rejected (call : Call) : Bool :=
  match call.run.result with
  | .ok (.reject _) => true
  | _ => false

def rendered (call : Call) : Bool :=
  match call.run.result with
  | .ok (.reject f) => f.render.isOk
  | _ => false

def ownEvents (call : Call) : List Event :=
  match call.callee with
  | .part (.custom own _) | .refinement own => (own call.value).events
  | .part _ => []

end Call

def Shape.on (s : Shape) (v : Value) : Call := ⟨.part s, v⟩

/-- The items up to the first that does not let things go on, which is the last. -/
def inTurn {α : Type} (goesOn : α → Bool) : List α → List α
  | [] => []
  | x :: xs => x :: if goesOn x then inTurn goesOn xs else []

namespace Shape

def plannedParts (item : Shape) : List (Except Fault Segment × Value) → List Call
  | [] => []
  | (.ok _, v) :: rest => item.on v :: plannedParts item rest
  | (.error _, _) :: _ => []

def plannedFields : List (String × Shape) → Container → List Call
  | [], _ => []
  | (name, s) :: fields, c => match c.lookup name with
    | .ok v => s.on v :: plannedFields fields c
    | .error _ => []

/-- The calls of a node on a value, in the documented order, if nothing stops it. -/
def planned : Shape → Value → List Call
  | .optional base, v => if v.isUndefined then [] else [base.on v]
  | .nullable base, v => match v with
    | .null => []
    | v => [base.on v]
  | .array item, v => match v.items? with
    | some items => items.map item.on
    | none => []
  | .record item, v => match v.container? with
    | some c => plannedParts item c.labelled
    | none => []
  | .tuple shapes, v => match v.items? with
    | some items => if items.length = shapes.length then List.zipWith on shapes items else []
    | none => []
  | .either left right, v | .both left right, v | .merge _ left right, v =>
    [left.on v, right.on v]
  | .anyOf alternatives, v => alternatives.map fun s => s.on v
  | .refined base own, v => [base.on v, ⟨.refinement own, v⟩]
  | .struct _ _ fields, v => match v.container? with
    | some c => plannedFields fields c
    | none => []
  | _, _ => []

theorem planned_nullable {base : Shape} {v : Value} (present : v ≠ .null) :
    planned (.nullable base) v = [base.on v] := by
  rw [planned]
  exact present

/-- Alternatives go on after a failure, all other nodes after an acceptance. Of many
    alternatives, each failure is rendered before the next one is tried. -/
def goesOn : Shape → Call → Bool
  | .either .., call => call.rejected
  | .anyOf _, call => call.rendered
  | _, call => call.accepted

def calls (s : Shape) (v : Value) : List Call := inTurn s.goesOn (s.planned v)

end Shape

namespace Check

open Run

theorem events_expect (what : String) (v : Value) : (expect what v).events = [] :=
  events_bind_silent (liftM (Json.describe v)) fun _ => rfl

theorem events_inside (segment : Segment) (r : Run Verdict) :
    (inside segment r).events = r.events :=
  events_bind_silent r fun _ => rfl

theorem events_andThen (r : Run Verdict) (next : Unit → Run Verdict) :
    (andThen r next).events = r.events ++ if passes r then (next ()).events else [] := by
  rw [andThen, events_bind, passes]
  cases r.result with
  | error fault => rfl
  | ok verdict => cases verdict <;> rfl

theorem events_andThen_silent {r : Run Verdict} {next : Unit → Run Verdict}
    (after : (next ()).events = []) : (andThen r next).events = r.events := by
  rw [events_andThen, after, ite_self, List.append_nil]

theorem events_andThen_inside (segment : Segment) (r : Run Verdict) (next : Unit → Run Verdict) :
    (andThen (inside segment r) next).events =
      r.events ++ if passes r then (next ()).events else [] := by
  have same : passes (inside segment r) = passes r := by
    have ending : (inside segment r).result = r.result.map (Verdict.within segment) := by
      change (Run.bind r _).result = _
      unfold Run.bind
      cases r.result <;> rfl
    rw [passes, ending, passes]
    cases r.result with
    | error fault => rfl
    | ok verdict => cases verdict <;> rfl
  rw [events_andThen, events_inside, same]

end Check

def eventsOf (calls : List Call) : List Event := calls.flatMap fun call => call.run.events

theorem eventsOf_inTurn (goesOn : Call → Bool) (call : Call) (rest : List Call) :
    eventsOf (inTurn goesOn (call :: rest)) =
      call.run.events ++ if goesOn call then eventsOf (inTurn goesOn rest) else [] := by
  rw [inTurn, eventsOf, List.flatMap_cons]
  cases goesOn call <;> rfl

namespace Shape

open Check Run

theorem events_checkItems (item : Shape) (items : List Value) (start : Nat) :
    (checkItems item.check start items).events =
      eventsOf (inTurn Call.accepted (items.map item.on)) := by
  induction items generalizing start with
  | nil => rfl
  | cons v vs ih =>
    rw [checkItems, events_andThen_inside, List.map_cons, eventsOf_inTurn, ih]
    rfl

theorem events_checkEach (shapes : List Shape) (items : List Value) (start : Nat) :
    (checkEach shapes start items).events =
      eventsOf (inTurn Call.accepted (List.zipWith on shapes items)) := by
  induction shapes generalizing items start with
  | nil => rfl
  | cons s ss ih =>
    cases items with
    | nil => rfl
    | cons v vs =>
      rw [checkEach, events_andThen_inside, List.zipWith_cons_cons, eventsOf_inTurn, ih]
      rfl

theorem events_checkLabelled (item : Shape) (parts : List (Except Fault Segment × Value)) :
    (checkLabelled item.check parts).events =
      eventsOf (inTurn Call.accepted (plannedParts item parts)) := by
  induction parts with
  | nil => rfl
  | cons part rest ih =>
    obtain ⟨label, v⟩ := part
    cases label with
    | error fault => rfl
    | ok segment =>
      rw [plannedParts, eventsOf_inTurn, ← ih]
      exact events_andThen_inside segment (item.check v) fun _ => checkLabelled item.check rest

theorem events_checkFields (fields : List (String × Shape)) (c : Container) :
    (checkFields fields c).events =
      eventsOf (inTurn Call.accepted (plannedFields fields c)) := by
  induction fields with
  | nil => rfl
  | cons field fields ih =>
    obtain ⟨name, s⟩ := field
    rw [checkFields, plannedFields, events_bind, Run.result_lift]
    cases c.lookup name with
    | error fault => rfl
    | ok v =>
      dsimp only
      rw [eventsOf_inTurn, ← ih]
      exact events_andThen_inside (.name name) (s.check v) fun _ => checkFields fields c

theorem events_checkDeclared (names : List String) (parts : List (Except Fault Segment × Value)) :
    (checkDeclared names parts).events = [] := by
  induction parts with
  | nil => rfl
  | cons part rest ih =>
    obtain ⟨label, v⟩ := part
    refine events_bind_silent (liftM label) fun segment => ?_
    split
    · exact ih
    · exact events_inside segment _

theorem events_checkAny (alternatives : List Shape) (texts : List String) (v : Value) :
    (checkAny alternatives texts v).events =
      eventsOf (inTurn Call.rendered (alternatives.map fun s => s.on v)) := by
  induction alternatives generalizing texts with
  | nil => rfl
  | cons s ss ih =>
    have retried : ∀ shown : Except Fault String,
        ((liftM shown : Run String) >>= fun text => checkAny ss (texts ++ [text]) v).events =
          if shown.isOk then eventsOf (inTurn Call.rendered (ss.map fun s => s.on v)) else [] := by
      intro shown
      rw [events_bind]
      cases shown with
      | error fault => rfl
      | ok text => exact ih (texts ++ [text])
    rw [List.map_cons, eventsOf_inTurn, checkAny, events_bind]
    refine congrArg ((s.check v).events ++ ·) ?_
    have rendered : (s.on v).rendered = match (s.check v).result with
        | .ok (.reject f) => f.render.isOk
        | _ => false := rfl
    rw [rendered]
    cases (s.check v).result with
    | error fault => rfl
    | ok verdict =>
      cases verdict with
      | accept => rfl
      | reject f => exact retried f.render

theorem eventsOf_pair (goesOn : Call → Bool) (first second : Call) :
    eventsOf (inTurn goesOn [first, second]) =
      first.run.events ++ if goesOn first then second.run.events else [] := by
  rw [eventsOf_inTurn, inTurn]
  cases goesOn second <;> simp [inTurn, eventsOf]

theorem eventsOf_alone (goesOn : Call → Bool) (call : Call) :
    eventsOf (inTurn goesOn [call]) = call.run.events := by
  rw [eventsOf_inTurn]
  cases goesOn call <;> simp [inTurn, eventsOf]

theorem events_either (left right : Shape) (v : Value) :
    ((either left right).check v).events = eventsOf ((either left right).calls v) := by
  rw [check, calls, planned, eventsOf_pair, events_bind]
  refine congrArg ((left.check v).events ++ ·) ?_
  have rejected : (left.on v).rejected = match (left.check v).result with
      | .ok (.reject _) => true
      | _ => false := rfl
  rw [goesOn, rejected]
  cases (left.check v).result with
  | error fault => rfl
  | ok verdict =>
    cases verdict with
    | accept => rfl
    | reject f =>
      refine events_bind_silent (right.check v) fun verdict => ?_
      cases verdict with
      | accept => rfl
      | reject g =>
        exact events_bind_silent (liftM f.render) fun first =>
          events_bind_silent (liftM g.render) fun second => rfl

/-- A node leaves behind what its calls leave behind, in the order in which they are made. -/
theorem events_check {s : Shape} (built : ∀ own type, s ≠ .custom own type) (v : Value) :
    (s.check v).events = eventsOf (s.calls v) := by
  cases s with
  | atomic k =>
    rw [check]
    split
    · rfl
    · exact events_expect _ v
  | literal tag candidates =>
    refine events_bind_silent (liftM (someEqual v candidates)) fun found => ?_
    split
    · rfl
    · exact events_bind_silent (liftM (expectation candidates)) fun what => events_expect what v
  | optional base =>
    rw [check, calls, planned]
    split
    · rfl
    · rw [eventsOf_alone]
      rfl
  | nullable base =>
    by_cases null : v = .null
    · subst null
      rfl
    · rw [check_nullable null, calls, planned_nullable null, eventsOf_alone]
      rfl
  | array item =>
    rw [check, calls, planned]
    cases v.items? with
    | none => exact events_expect _ v
    | some items => exact events_checkItems item items 0
  | record item =>
    rw [check, calls, planned]
    cases v.container? with
    | none => exact events_expect _ v
    | some c => exact events_checkLabelled item c.labelled
  | tuple shapes =>
    rw [check, calls, planned]
    cases v.items? with
    | none => exact events_expect _ v
    | some items =>
      dsimp only
      split
      · exact events_checkEach shapes items 0
      · rfl
  | either left right => exact events_either left right v
  | anyOf alternatives => exact events_checkAny alternatives [] v
  | both left right =>
    rw [check, calls, planned, eventsOf_pair]
    exact events_andThen (left.check v) _
  | merge tag left right =>
    rw [check, calls, planned, eventsOf_pair]
    exact events_andThen (left.check v) _
  | refined base own =>
    rw [check, calls, planned, eventsOf_pair]
    exact events_andThen (base.check v) _
  | custom own type => exact absurd rfl (built own type)
  | struct tag closed fields =>
    rw [check, calls, planned]
    cases v.container? with
    | none => exact events_expect _ v
    | some c =>
      refine (events_andThen_silent ?_).trans (events_checkFields fields c)
      split
      · exact events_checkDeclared _ _
      · rfl

theorem inTurn_initial {α : Type} (goesOn : α → Bool) (xs : List α) : inTurn goesOn xs <+: xs := by
  induction xs with
  | nil => exact List.prefix_refl []
  | cons x xs ih =>
    rw [inTurn, List.prefix_cons_inj]
    split
    · exact ih
    · exact List.nil_prefix

theorem plannedParts_initial (item : Shape) (parts : List (Except Fault Segment × Value)) :
    plannedParts item parts <+: parts.map fun part => item.on part.2 := by
  induction parts with
  | nil => exact List.prefix_refl []
  | cons part rest ih =>
    obtain ⟨label, v⟩ := part
    cases label with
    | error fault => exact List.nil_prefix
    | ok segment => exact (List.prefix_cons_inj _).mpr ih

theorem mem_plannedFields {fields : List (String × Shape)} {c : Container} {call : Call}
    (planned : call ∈ plannedFields fields c) : ∃ field ∈ fields, call = field.2.on call.value := by
  induction fields with
  | nil => cases planned
  | cons field fields ih =>
    obtain ⟨name, s⟩ := field
    rw [plannedFields] at planned
    cases looked : c.lookup name with
    | error fault =>
      rw [looked] at planned
      cases planned
    | ok v =>
      rw [looked] at planned
      rcases List.mem_cons.mp planned with rfl | later
      · exact ⟨_, List.mem_cons_self, rfl⟩
      · obtain ⟨field, listed, same⟩ := ih later
        exact ⟨field, List.mem_cons_of_mem _ listed, same⟩

theorem mem_children_of_planned {s c : Shape} {v x : Value} (made : c.on x ∈ s.planned v) :
    c ∈ s.children := by
  have alone : ∀ {base : Shape}, c.on x ∈ [base.on v] → c ∈ [base] := by
    intro base member
    cases List.mem_singleton.mp member
    exact List.mem_singleton.mpr rfl
  have either : ∀ {left right : Shape}, c.on x ∈ [left.on v, right.on v] → c ∈ [left, right] := by
    intro left right member
    rcases List.mem_pair.mp member with same | same
    · cases same
      exact List.mem_cons_self
    · cases same
      exact List.mem_cons_of_mem _ List.mem_cons_self
  cases s with
  | atomic | literal | custom => cases made
  | optional base =>
    rw [planned] at made
    split at made
    · cases made
    · exact alone made
  | nullable base =>
    by_cases null : v = .null
    · subst null
      cases made
    · rw [planned_nullable null] at made
      exact alone made
  | array item =>
    rw [planned] at made
    split at made
    · obtain ⟨y, _, same⟩ := List.mem_map.mp made
      cases same
      exact List.mem_singleton.mpr rfl
    · cases made
  | record item =>
    rw [planned] at made
    split at made
    · obtain ⟨part, _, same⟩ := List.mem_map.mp ((plannedParts_initial item _).subset made)
      cases same
      exact List.mem_singleton.mpr rfl
    · cases made
  | tuple shapes =>
    rw [planned] at made
    split at made
    · split at made
      · obtain ⟨i, inside, same⟩ := List.mem_iff_getElem.mp made
        rw [List.getElem_zipWith] at same
        cases same
        exact List.getElem_mem _
      · cases made
    · cases made
  | either left right | both left right | merge tag left right => exact either made
  | anyOf alternatives =>
    obtain ⟨s, listed, same⟩ := List.mem_map.mp made
    cases same
    exact listed
  | refined base own =>
    rcases List.mem_pair.mp made with same | same
    · cases same
      exact List.mem_singleton.mpr rfl
    · cases same
  | struct tag closed fields =>
    rw [planned] at made
    split at made
    · obtain ⟨field, listed, same⟩ := mem_plannedFields made
      cases same
      exact field_child listed
    · cases made

theorem sizeOf_child_lt {s c : Shape} (child : c ∈ s.children) : sizeOf c < sizeOf s := by
  cases s with
  | atomic | literal | custom => cases child
  | optional base | nullable base | array base | record base =>
    cases List.mem_singleton.mp child
    simp
  | refined base own =>
    cases List.mem_singleton.mp child
    simp only [refined.sizeOf_spec]
    omega
  | tuple shapes | anyOf shapes =>
    change c ∈ shapes at child
    have smaller := List.sizeOf_lt_of_mem child
    simp only [tuple.sizeOf_spec, anyOf.sizeOf_spec]
    omega
  | either left right | both left right | merge tag left right =>
    simp only [either.sizeOf_spec, both.sizeOf_spec, merge.sizeOf_spec]
    rcases List.mem_pair.mp child with rfl | rfl <;> omega
  | struct tag closed fields =>
    obtain ⟨⟨name, s⟩, listed, rfl⟩ := List.mem_map.mp child
    have smaller := List.sizeOf_lt_of_mem listed
    simp only [Prod.mk.sizeOf_spec] at smaller
    simp only [struct.sizeOf_spec]
    omega

/-- All calls in the course of checking a value, each before those that it makes. -/
def trace (s : Shape) (v : Value) : List Call :=
  s.on v :: (s.calls v).attach.flatMap fun
    | ⟨⟨.part c, x⟩, _⟩ => trace c x
    | ⟨⟨.refinement own, x⟩, _⟩ => [⟨.refinement own, x⟩]
termination_by sizeOf s
decreasing_by
  rename_i made
  exact sizeOf_child_lt (mem_children_of_planned ((inTurn_initial _ _).subset made))

end Shape

def Call.trace (call : Call) : List Call :=
  match call.callee with
  | .part s => s.trace call.value
  | .refinement _ => [call]

theorem Shape.trace_eq (s : Shape) (v : Value) :
    s.trace v = s.on v :: (s.calls v).flatMap Call.trace := by
  have each : (s.calls v).flatMap Call.trace =
      (s.calls v).attach.flatMap fun call => call.1.trace := by
    conv_lhs => rw [← List.attach_map_subtype_val (s.calls v)]
    rw [List.flatMap_map]
  rw [trace, each]
  congr 2
  funext ⟨⟨callee, x⟩, made⟩
  cases callee <;> rfl

theorem Call.accepted_iff {call : Call} :
    call.accepted = true ↔ call.run.result = .ok .accept := by
  rw [accepted, Check.passes]
  split
  · rename_i ending
    simp [ending]
  · rename_i other
    simpa using other

theorem Call.rejected_iff {call : Call} :
    call.rejected = true ↔ ∃ f, call.run.result = .ok (.reject f) := by
  rw [rejected]
  split
  · rename_i f ending
    simp [ending]
  · rename_i other
    simpa using other

theorem Call.rejected_of_rendered {call : Call} (rendered : call.rendered = true) :
    call.rejected = true := by
  rw [Call.rendered] at rendered
  rw [rejected]
  split at rendered
  · rfl
  · cases rendered

theorem inTurn_reached {α : Type} {goesOn : α → Bool} {xs : List α} {k : Nat} {x : α}
    (reached : (inTurn goesOn xs)[k]? = some x) :
    xs[k]? = some x ∧ ∀ j < k, ∀ y, xs[j]? = some y → goesOn y = true := by
  induction xs generalizing k with
  | nil => simp [inTurn] at reached
  | cons y ys ih =>
    rw [inTurn] at reached
    cases k with
    | zero => exact ⟨by simpa using reached, fun j earlier => by omega⟩
    | succ k =>
      rw [List.getElem?_cons_succ] at reached
      split at reached
      · rename_i passed
        obtain ⟨there, before⟩ := ih reached
        refine ⟨by simpa using there, fun j earlier z found => ?_⟩
        cases j with
        | zero =>
          cases found
          exact passed
        | succ j => exact before j (by omega) z (by simpa using found)
      · simp at reached

theorem inTurn_stops {α : Type} (goesOn : α → Bool) (xs : List α) :
    inTurn goesOn xs = xs ∨
      ∃ front x, inTurn goesOn xs = front ++ [x] ∧ goesOn x = false := by
  induction xs with
  | nil => exact Or.inl rfl
  | cons y ys ih =>
    rw [inTurn]
    cases passed : goesOn y with
    | false => exact Or.inr ⟨[], y, rfl, passed⟩
    | true =>
      rcases ih with all | ⟨front, x, same, stopped⟩
      · exact Or.inl (congrArg (y :: ·) all)
      · exact Or.inr ⟨y :: front, x, congrArg (y :: ·) same, stopped⟩

/-- Whatever is done while a value is checked is done by the checks of one's own among the
    calls, one after the other. -/
theorem Shape.events_trace (s : Shape) (v : Value) :
    (s.check v).events = (s.trace v).flatMap Call.ownEvents := by
  induction s using childInduction generalizing v with
  | step s ih =>
    rw [trace_eq, List.flatMap_cons, List.flatMap_assoc]
    by_cases own : ∃ check type, s = .custom check type
    · obtain ⟨check, type, rfl⟩ := own
      exact (List.append_nil _).symm
    · have built : ∀ check type, s ≠ .custom check type := fun check type same =>
        own ⟨check, type, same⟩
      have silent : (s.on v).ownEvents = [] := by
        cases s with
        | custom check type => exact absurd rfl (built check type)
        | _ => rfl
      rw [events_check built v, silent, List.nil_append, eventsOf]
      refine List.flatMap_congr fun call made => ?_
      obtain ⟨callee, x⟩ := call
      cases callee with
      | part c =>
        exact ih c (mem_children_of_planned ((inTurn_initial _ _).subset made)) x
      | refinement own => exact (List.append_nil _).symm

namespace Shape

def alternatives? : Shape → Option (List Shape)
  | .either left right => some [left, right]
  | .anyOf alternatives => some alternatives
  | _ => none

def operands? : Shape → Option (Shape × Shape)
  | .both left right | .merge _ left right => some (left, right)
  | _ => none

def IsContainer : Shape → Prop
  | .array _ | .record _ | .tuple _ | .struct .. => True
  | _ => False

/-- How a node goes about its calls on a value. -/
structure Disciplined (s : Shape) (v : Value) : Prop where
  /-- What it leaves behind is what these calls leave behind. -/
  made : (∀ own type, s ≠ .custom own type) → (s.check v).events = eventsOf (s.calls v)
  /-- The calls come in the documented order, each planned one at most once. -/
  inOrder : s.calls v <+: s.planned v
  /-- Only a call that does not let the node go on leaves others out. -/
  complete : s.calls v = s.planned v ∨
    ∃ front call, s.calls v = front ++ [call] ∧ s.goesOn call = false
  /-- A refinement gets a value that the base accepts. -/
  refinement : ∀ {base : Shape} {own : Check} {x : Value}, s = .refined base own →
    ⟨.refinement own, x⟩ ∈ s.calls v → x = v ∧ base.Accepts v
  /-- The right operand gets a value that the left operand accepts. -/
  operand : ∀ {left right : Shape} {call : Call}, s.operands? = some (left, right) →
    (s.calls v)[1]? = some call → call = right.on v ∧ left.Accepts v
  /-- An alternative gets a value that all earlier ones reject. -/
  alternative : ∀ {alternatives : List Shape} {k : Nat} {call : Call},
    s.alternatives? = some alternatives → (s.calls v)[k]? = some call →
      (∃ t, alternatives[k]? = some t ∧ call = t.on v) ∧
        ∀ j < k, ∀ t : Shape, alternatives[j]? = some t → ∃ f, t.RejectsAs v f
  /-- An item or field is only checked when all earlier ones are accepted. -/
  container : ∀ {k : Nat} {call : Call}, s.IsContainer → (s.calls v)[k]? = some call →
    ∀ j < k, ∀ earlier : Call, (s.planned v)[j]? = some earlier →
      earlier.run.result = .ok .accept
  /-- Nothing is called on what may be absent, or null. -/
  absent : ∀ {base : Shape}, s = .optional base → v.isUndefined = true → s.calls v = []
  null : ∀ {base : Shape}, s = .nullable base → v = .null → s.calls v = []

theorem reached_accepted {s : Shape} {v : Value} (all : s.goesOn = Call.accepted) {k : Nat}
    {call : Call} (reached : (s.calls v)[k]? = some call) :
    ∀ j < k, ∀ earlier, (s.planned v)[j]? = some earlier → earlier.run.result = .ok .accept := by
  intro j before earlier planned
  have passed := (inTurn_reached reached).2 j before earlier planned
  rw [all] at passed
  exact Call.accepted_iff.mp passed

theorem disciplined (s : Shape) (v : Value) : s.Disciplined v where
  made := fun built => events_check built v
  inOrder := inTurn_initial _ _
  complete := inTurn_stops _ _
  refinement := by
    rintro base own x rfl called
    obtain ⟨k, reached⟩ := List.getElem?_of_mem called
    have planned := (inTurn_reached reached).1
    match k with
    | 0 => cases planned
    | 1 =>
      cases planned
      exact ⟨rfl, reached_accepted rfl reached 0 Nat.one_pos _ rfl⟩
    | _ + 2 => cases planned
  operand := by
    intro left right call operands reached
    have planned := (inTurn_reached reached).1
    cases s with
    | both | merge =>
      cases operands
      cases planned
      exact ⟨rfl, reached_accepted rfl reached 0 Nat.one_pos _ rfl⟩
    | _ => cases operands
  alternative := by
    intro alternatives k call union reached
    obtain ⟨planned, before⟩ := inTurn_reached reached
    have listed : s.planned v = alternatives.map fun t => t.on v := by
      cases s with
      | either | anyOf =>
        cases union
        rfl
      | _ => cases union
    have goes : ∀ call, s.goesOn call = true → call.rejected = true := by
      cases s with
      | either => exact fun _ passed => passed
      | anyOf => exact fun _ passed => Call.rejected_of_rendered passed
      | _ => cases union
    rw [listed, List.getElem?_map, Option.map_eq_some_iff] at planned
    obtain ⟨t, place, rfl⟩ := planned
    refine ⟨⟨t, place, rfl⟩, fun j earlier u found => ?_⟩
    have tried : (s.planned v)[j]? = some (u.on v) := by
      rw [listed, List.getElem?_map, found]
      rfl
    exact Call.rejected_iff.mp (goes _ (before j earlier _ tried))
  container := by
    intro k call container reached
    refine reached_accepted ?_ reached
    cases s with
    | array | record | tuple | struct => rfl
    | _ => exact container.elim
  absent := by
    rintro base rfl absent
    rw [calls, planned, if_pos absent]
    rfl
  null := by
    rintro base rfl rfl
    rfl

end Shape

theorem Call.mem_trace (call : Call) : call ∈ call.trace := by
  obtain ⟨callee, x⟩ := call
  cases callee with
  | part s =>
    change s.on x ∈ s.trace x
    rw [Shape.trace_eq]
    exact List.mem_cons_self
  | refinement own => exact List.mem_singleton.mpr rfl

theorem Shape.calls_in_trace {s t : Shape} {v w : Value} (visited : t.on w ∈ s.trace v)
    {inner : Call} (made : inner ∈ t.calls w) : inner ∈ s.trace v := by
  induction s using childInduction generalizing v with
  | step s ih =>
    rw [trace_eq] at visited ⊢
    rcases List.mem_cons.mp visited with root | below
    · cases root
      exact List.mem_cons_of_mem _ (List.mem_flatMap.mpr ⟨inner, made, inner.mem_trace⟩)
    · obtain ⟨⟨callee, x⟩, called, within⟩ := List.mem_flatMap.mp below
      refine List.mem_cons_of_mem _ (List.mem_flatMap.mpr ⟨_, called, ?_⟩)
      cases callee with
      | part c =>
        exact ih c (mem_children_of_planned ((inTurn_initial _ _).subset called)) within
      | refinement own =>
        cases List.mem_singleton.mp within

/-- The checks that are called while a value is validated, and how every node among them goes
    about its calls. -/
theorem validation_calls (s : Schema) (v : Value) :
    (s.validate v).events = (s.shape.trace v).flatMap Call.ownEvents ∧
      ∀ (t : Shape) (w : Value), t.on w ∈ s.shape.trace v →
        (∀ call ∈ t.calls w, call ∈ s.shape.trace v) ∧ t.Disciplined w := by
  refine ⟨(s.events_validate v).trans (s.shape.events_trace v), fun t w visited => ?_⟩
  exact ⟨fun call made => Shape.calls_in_trace visited made, t.disciplined w⟩

def retried : Schema where
  shape := .array (.either
    (.refined (.custom (Check.observed "first") .any) (Check.failing "no" []))
    (.custom (Check.observed "second") .any))
  type := .list .any
  typed := rfl

example : (retried.validate (.list [.int 1, .int 2])).calls =
    [("first", .int 1), ("second", .int 1), ("first", .int 2), ("second", .int 2)] := rfl

end Conform
