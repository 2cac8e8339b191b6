import Conform.Proofs.Absence
import Conform.Proofs.Containers
import Conform.Proofs.Returning

/-!
Closed structs beside open ones. A closed struct first runs as the open struct of the
same fields, and then goes through the keys in order. A key is let through when it is
equal to a declared name. So is a key that is no text but is shown as one, although the
field is not read from it.
-/
namespace Conform

def Container.keys : Container → List Key
  | .map es => es.map (·.1)
  | .seq items => items.mapIdx fun i _ => .scalar (.text (indexName i))

theorem Container.labels_eq (c : Container) : c.labelled.map (·.1) = c.keys.map Key.segment := by
  cases c with
  | map es =>
    rw [labelled, keys, List.map_map, List.map_map]
    rfl
  | seq items =>
    apply List.ext_getElem?
    intro i
    simp [labelled, keys]
    rfl

namespace Key

variable {k : Key} {s name : String} {segment : Segment}

/-- The key is no text, but shown as the name. -/
def PassesFor (k : Key) (name : String) : Prop := k.text? = none ∧ k.segment = .ok (.name name)

theorem isName_of_text (text : k.text? = some s) :
    ∃ segment, k.segment = .ok segment ∧ ∀ name, segment.isName name = (s == name) := by
  cases k with
  | tuple ks => cases text
  | scalar a =>
    cases a with
    | text t =>
      cases text
      exact ⟨_, rfl, fun _ => rfl⟩
    | symbol symbol =>
      obtain ⟨family, name, payload, transparent⟩ := symbol
      cases transparent with
      | false => simp [text?, Scalar.text?, Scalar.plain] at text
      | true =>
        cases payload with
        | text t =>
          cases text
          exact ⟨_, rfl, fun _ => rfl⟩
        | _ => cases text
    | _ => cases text

theorem isName_of_not_text (other : k.text? = none) (named : k.segment = .ok segment)
    (name : String) : segment.isName name = true ↔ segment = .name name := by
  unfold Key.segment at named
  split at named
  · cases other
  · cases named
    simp [Segment.isName]
  · cases named
    simp [Segment.isName, Scalar.text?, Scalar.plain]
  · cases other
  · obtain ⟨text, _, same⟩ := except_bind_ok_iff.mp named
    cases same
    simp [Segment.isName]

def Passes (k : Key) (names : List String) : Prop :=
  ∃ name ∈ names, k.same (.scalar (.text name)) = true ∨ k.PassesFor name

theorem passes_iff {names : List String} :
    k.Passes names ↔ ∃ segment, k.segment = .ok segment ∧ names.any segment.isName = true := by
  simp only [Passes, List.any_eq_true, same_text_iff]
  cases text : k.text? with
  | some s =>
    obtain ⟨segment, named, isName⟩ := isName_of_text text
    simp [PassesFor, text, named, isName]
  | none =>
    constructor
    · rintro ⟨name, member, same | passes⟩
      · cases same
      · exact ⟨_, passes.2, name, member, (isName_of_not_text text passes.2 name).mpr rfl⟩
    · rintro ⟨segment, named, name, member, isName⟩
      rw [isName_of_not_text text named] at isName
      subst isName
      exact ⟨name, member, Or.inr ⟨text, named⟩⟩

end Key

namespace Check

theorem andThen_stopped {r : Run Verdict} (stopped : r.result ≠ .ok .accept)
    (next : Unit → Run Verdict) : andThen r next = r := by
  obtain ⟨events, result⟩ := r
  cases result with
  | error fault => rfl
  | ok verdict =>
    cases verdict with
    | accept => exact absurd rfl stopped
    | reject f => exact congrArg (Run.mk · _) (List.append_nil events)

theorem andThen_accepted {r : Run Verdict} (accepted : r.result = .ok .accept)
    (next : Unit → Run Verdict) : (andThen r next).result = (next ()).result :=
  Run.result_bind accepted _

end Check

namespace Shape

open Check

theorem checkDeclared_accept {names : List String} {c : Container} :
    (checkDeclared names c.labelled).result = .ok .accept ↔ ∀ k ∈ c.keys, k.Passes names := by
  have labels : ∀ p : Except Fault Segment → Prop,
      (∀ part ∈ c.labelled, p part.1) ↔ ∀ k ∈ c.keys, p k.segment := by
    intro p
    rw [← List.forall_mem_map (f := Prod.fst), c.labels_eq, List.forall_mem_map]
  rw [checkDeclared_accept_iff]
  refine (labels fun label => ∃ segment, label = .ok segment ∧ names.any segment.isName).trans ?_
  exact forall₂_congr fun _ _ => Key.passes_iff.symm

theorem checkDeclared_first {names : List String} {parts : List (Except Fault Segment × Value)}
    {before after : List Key} {k : Key}
    (labels : parts.map (·.1) = (before ++ k :: after).map Key.segment)
    (passed : ∀ b ∈ before, b.Passes names) (stopped : ¬ k.Passes names) :
    (checkDeclared names parts).result =
      k.segment.map fun segment => .reject ((Failure.of .unexpectedField).within segment) := by
  induction before generalizing parts with
  | nil =>
    obtain ⟨⟨label, x⟩, rest, rfl, same, _⟩ := List.map_eq_cons_iff.mp labels
    subst same
    rw [checkDeclared]
    cases named : k.segment with
    | error fault => exact Run.bind_stopped (r := liftM (Except.error fault)) rfl _
    | ok segment =>
      have undeclared : ¬ names.any segment.isName = true := fun declared =>
        stopped (Key.passes_iff.mpr ⟨segment, named, declared⟩)
      refine (Run.result_bind (r := liftM (Except.ok segment)) rfl _).trans ?_
      rw [if_neg undeclared]
      rfl
  | cons b before ih =>
    obtain ⟨⟨label, x⟩, rest, rfl, same, others⟩ := List.map_eq_cons_iff.mp labels
    subst same
    rw [List.forall_mem_cons] at passed
    obtain ⟨segment, named, declared⟩ := Key.passes_iff.mp passed.1
    rw [checkDeclared, named]
    refine (Run.result_bind (r := liftM (Except.ok segment)) rfl _).trans ?_
    rw [if_pos declared]
    exact ih others passed.2

/-- A closed struct runs as the open one up to where this has accepted. -/
theorem check_closed (tag tag' : Nat) {fields : List (String × Shape)} {v : Value} {c : Container}
    (opened : v.container? = some c) :
    check (.struct tag' true fields) v =
      andThen (check (.struct tag false fields) v) fun _ =>
        checkDeclared (fields.map (·.1)) c.labelled := by
  rw [check, check]
  simp only [opened, if_true]
  exact congrArg (andThen · _) (andThen_accept _).symm

theorem check_closed_of_not_accepts {tag tag' : Nat} {fields : List (String × Shape)} {v : Value}
    (refused : ¬ (struct tag false fields).Accepts v) :
    check (.struct tag' true fields) v = check (.struct tag false fields) v := by
  cases opened : v.container? with
  | none => rw [check, check, opened]
  | some c =>
    rw [check_closed tag tag' opened]
    exact andThen_stopped refused _

end Shape

theorem names_putEntry {α : Type} (es : List (String × α)) (k : String) (v : α) :
    (putEntry (· == ·) es k v).map (·.1) =
      if k ∈ es.map (·.1) then es.map (·.1) else es.map (·.1) ++ [k] := by
  induction es with
  | nil => rfl
  | cons e es ih =>
    rw [putEntry]
    by_cases same : e.1 = k
    · simp [same]
    · simp only [beq_iff_eq, same, if_false, List.map_cons, ih, List.mem_cons, Ne.symm same,
        false_or]
      split <;> rfl

theorem mem_names_putEntry {α : Type} {es : List (String × α)} {k name : String} {v : α} :
    name ∈ (putEntry (· == ·) es k v).map (·.1) ↔ name ∈ es.map (·.1) ∨ name = k := by
  rw [names_putEntry]
  split
  · rename_i old
    constructor
    · exact Or.inl
    · rintro (member | rfl)
      · exact member
      · exact old
  · simp

theorem nodup_names_entriesBy {α : Type} (pairs : List (String × α)) :
    ((entriesBy (· == ·) pairs).map (·.1)).Nodup := by
  induction pairs using List.reverseRecOn with
  | nil => exact List.nodup_nil
  | append_singleton pairs pair ih =>
    rw [entriesBy_append_singleton, names_putEntry]
    split
    · exact ih
    · rename_i fresh
      exact List.nodup_append_comm.mp (ih.cons fresh)

theorem mem_names_entriesBy {α : Type} {pairs : List (String × α)} {name : String} :
    name ∈ (entriesBy (· == ·) pairs).map (·.1) ↔ name ∈ pairs.map (·.1) := by
  induction pairs using List.reverseRecOn with
  | nil => rfl
  | append_singleton pairs pair ih =>
    rw [entriesBy_append_singleton, mem_names_putEntry, ih, List.map_append, List.mem_append,
      List.map_singleton, List.mem_singleton]

theorem Key.passes_congr {k : Key} {names others : List String}
    (same : ∀ name, name ∈ names ↔ name ∈ others) : k.Passes names ↔ k.Passes others :=
  exists_congr fun name => and_congr_left fun _ => same name

theorem Key.exists_place {k : Key} (writable : k.Writable) :
    ∃ segment place, k.segment = .ok segment ∧ segment.render = .ok place := by
  have never : ¬ k.Writable → False := fun long => long writable
  obtain ⟨segment, named⟩ :=
    (Key.segment_faults (p := fun _ => False) never).returns fun _ => id
  obtain ⟨text, shown⟩ :=
    (Key.segment_display_faults (p := fun _ => False) never named).returns fun _ => id
  exact ⟨segment, _, named, by rw [Segment.render, shown]; rfl⟩

theorem Failure.toError_within (f : Failure) {segment : Segment} {place : List Char}
    (shallow : f.path = []) (shown : segment.render = .ok place) :
    (f.within segment).toError =
      .ok ⟨"in " ++ String.ofList place ++ ": " ++ f.reason.text, [segment], f.reason.text⟩ := by
  have path : renderPath [segment] = .ok place := by
    rw [renderPath, List.mapM_cons, shown]
    exact congrArg Except.ok (List.append_nil place)
  refine Failure.toError_ok_iff.mpr ⟨?_, ?_, rfl⟩
  · simp only [render, within, shallow, path]
    rfl
  · rw [within, shallow]

namespace Schema

theorem struct_built {closed : Bool} {fields : List (String × Schema)} {tag next : Nat}
    {s : Schema} (built : (struct closed fields).run tag = .ok (s, next)) :
    s.shape = .struct tag closed
      (entriesBy (· == ·) (fields.map fun field => (field.1, field.2.shape))) := by
  rw [struct_run] at built
  cases opened : of (.struct tag closed
      (entriesBy (· == ·) (fields.map fun field => (field.1, field.2.shape)))) with
  | error fault =>
    rw [opened] at built
    cases built
  | ok t =>
    rw [opened] at built
    cases built
    exact shape_of opened

end Schema

/-- How a closed struct treats the keys of a container, beside the open struct of the same
    fields. -/
structure ClosedOver (names : List String) (loose strict : Schema) (v : Value) (c : Container) :
    Prop where
  accepts : (strict.validate v).result = .ok (.ok v) ↔
    (loose.validate v).result = .ok (.ok v) ∧ ∀ k ∈ c.keys, k.Passes names
  exactly : (∀ k ∈ c.keys, ∀ name ∈ names, ¬ k.PassesFor name) →
    ((strict.validate v).result = .ok (.ok v) ↔ (loose.validate v).result = .ok (.ok v) ∧
      ∀ k ∈ c.keys, ∃ name ∈ names, k.same (.scalar (.text name)) = true)
  first : (loose.validate v).result = .ok (.ok v) → ∀ before k after,
    c.keys = before ++ k :: after → (∀ b ∈ before, b.Passes names) → ¬ k.Passes names →
      (strict.validateBase v).result =
          k.segment.map (fun segment => .error ⟨.unexpectedField, [segment]⟩) ∧
        (k.Writable → ∃ segment place, k.segment = .ok segment ∧ segment.render = .ok place ∧
          (strict.validate v).result = .ok (.error ⟨"in " ++ String.ofList place ++ ": " ++
            "Unexpected field", [segment], "Unexpected field"⟩))

section

variable {fields : List (String × Shape)} {names : List String} {loose strict : Schema}
  {tag tag' : Nat} {v : Value} {c : Container} (opened : v.container? = some c)
  (loose_shape : loose.shape = .struct tag false fields)
  (strict_shape : strict.shape = .struct tag' true fields)
  (declared : ∀ name, name ∈ fields.map (·.1) ↔ name ∈ names)
include opened loose_shape strict_shape declared

theorem strict_accepts_iff : (strict.validate v).result = .ok (.ok v) ↔
    (loose.validate v).result = .ok (.ok v) ∧ ∀ k ∈ c.keys, k.Passes names := by
  rw [Schema.validate_accept_iff, Schema.validate_accept_iff, strict_shape, loose_shape,
    Shape.Accepts, Shape.check_closed tag tag' opened, Check.andThen_accept_iff,
    Shape.checkDeclared_accept]
  simp only [Shape.Accepts, Key.passes_congr declared, and_true]

theorem strict_first (accepted : (loose.validate v).result = .ok (.ok v)) {before after : List Key}
    {k : Key} (split : c.keys = before ++ k :: after) (passed : ∀ b ∈ before, b.Passes names)
    (stopped : ¬ k.Passes names) : (strict.shape.check v).result =
      k.segment.map fun segment => .reject ((Failure.of .unexpectedField).within segment) := by
  have first : (Shape.check (.struct tag false fields) v).result = .ok .accept :=
    loose_shape ▸ (Schema.validate_accept_iff.mp accepted).1
  rw [strict_shape, Shape.check_closed tag tag' opened, Check.andThen_accepted first]
  refine Shape.checkDeclared_first (split ▸ c.labels_eq) ?_ ?_
  · exact fun b member => (Key.passes_congr declared).mpr (passed b member)
  · exact fun passes => stopped ((Key.passes_congr declared).mp passes)

theorem strict_closedOver : ClosedOver names loose strict v c where
  accepts := strict_accepts_iff opened loose_shape strict_shape declared
  exactly := by
    intro none
    rw [strict_accepts_iff opened loose_shape strict_shape declared]
    refine and_congr_right fun _ => forall₂_congr fun k member => ?_
    refine exists_congr fun name => and_congr_right fun among => ?_
    exact or_iff_left (none k member name among)
  first := by
    intro accepted before k after split passed stopped
    have checked :=
      strict_first opened loose_shape strict_shape declared accepted split passed stopped
    constructor
    · rw [Schema.result_validateBase, checked]
      cases k.segment <;> rfl
    · intro writable
      obtain ⟨segment, place, named, shown⟩ := Key.exists_place writable
      have reported := Failure.toError_within (.of .unexpectedField) rfl shown
      refine ⟨segment, place, named, shown, ?_⟩
      rw [Schema.result_validate, checked, named]
      simp only [Except.map, reported]
      rfl

end

theorem Container.not_passesFor_index {items : List Value} {k : Key}
    (member : k ∈ (Container.seq items).keys) (name : String) : ¬ k.PassesFor name := by
  rintro ⟨other, _⟩
  obtain ⟨i, _, rfl⟩ := List.mem_mapIdx.mp member
  cases other

/-- A closed struct does whatever the open struct of the same fields does, until this accepts.
    Then it accepts when every key passes for a declared name, and otherwise reports the first
    that does not. The index of an item passes for nothing but itself. -/
theorem struct_closedOver (fields : List (String × Schema)) {loose strict : Schema}
    {tag next tag' next' : Nat}
    (loose_built : (Schema.struct false fields).run tag = .ok (loose, next))
    (strict_built : (Schema.struct true fields).run tag' = .ok (strict, next')) (v : Value) :
    ((loose.validate v).result ≠ .ok (.ok v) →
        strict.validate v = loose.validate v ∧ strict.validateBase v = loose.validateBase v) ∧
      (∀ c, v.container? = some c → ClosedOver (fields.map (·.1)) loose strict v c) ∧
      ∀ items, v.items? = some items → ∀ k ∈ (Container.seq items).keys, ∀ name,
        ¬ k.PassesFor name := by
  have loose_shape := Schema.struct_built loose_built
  have strict_shape := Schema.struct_built strict_built
  refine ⟨fun refused => ?_, fun c opened => ?_, fun _ _ _ => Container.not_passesFor_index⟩
  · have same : strict.shape.check v = loose.shape.check v := by
      rw [strict_shape, loose_shape]
      refine Shape.check_closed_of_not_accepts fun accepts => refused ?_
      exact Schema.validate_accept_iff.mpr ⟨loose_shape ▸ accepts, rfl⟩
    exact ⟨Schema.validate_congr same, by rw [Schema.validateBase, Schema.validateBase, same]⟩
  · refine strict_closedOver opened loose_shape strict_shape fun name => ?_
    rw [mem_names_entriesBy, List.map_map]
    rfl

def badge (closed : Bool) : Schema where
  shape := .struct 0 closed [("name", .atomic .string)]
  type := .struct 0 [("name", .text, true)]
  typed := rfl

theorem badge_built (closed : Bool) :
    (Schema.struct closed [("name", textOnly)]).run 0 = .ok (badge closed, 1) := rfl

def ticked : Value := .dict [(.scalar (.text "name"), .text "x"), (.scalar (.bool true), .null)]

theorem ticked_refused :
    ((badge false).validate ticked).result = .ok (.ok ticked) ∧
      ((badge true).validate ticked).result =
        .ok (.error ⟨"in True: Unexpected field", [.name "True"], "Unexpected field"⟩) := by
  have accepted : ((badge false).validate ticked).result = .ok (.ok ticked) := rfl
  have closedOver := (struct_closedOver [("name", textOnly)] (badge_built false) (badge_built true)
    ticked).2.1 _ rfl
  have known : ∀ b ∈ [Key.scalar (.text "name")], b.Passes ["name"] :=
    List.forall_mem_singleton.mpr ⟨"name", List.mem_singleton.mpr rfl, Or.inl (by decide)⟩
  have unknown : ¬ (Key.scalar (.bool true)).Passes ["name"] := by
    rintro ⟨name, member, same | ⟨_, shown⟩⟩
    · cases same
    · rw [List.mem_singleton.mp member] at shown
      revert shown
      decide
  obtain ⟨segment, place, named, shown, refused⟩ :=
    (closedOver.first accepted [_] (.scalar (.bool true)) [] rfl known unknown).2 trivial
  cases named
  cases shown
  exact ⟨accepted, refused⟩

def mark (closed : Bool) : Schema where
  shape := .struct 0 closed [("True", .optional (.atomic .string))]
  type := .struct 0 [("True", .text, false)]
  typed := rfl

/-- A truth value is not the declared name, but passes for it. What is under it is not looked at. -/
theorem shown_key_not_refused :
    ¬ ∀ (fields : List (String × Schema)) (loose strict : Schema) (tag next tag' next' : Nat),
      (Schema.struct false fields).run tag = .ok (loose, next) →
      (Schema.struct true fields).run tag' = .ok (strict, next') →
        ∀ v c, v.container? = some c →
          ((strict.validate v).result = .ok (.ok v) ↔ (loose.validate v).result = .ok (.ok v) ∧
            ∀ k ∈ c.keys, ∃ field ∈ fields, k.same (.scalar (.text field.1)) = true) := by
  intro closed
  have exactly := closed [("True", ⟨.optional (.atomic .string), .union [.text, .undefined], rfl⟩)]
    (mark false) (mark true) 0 1 0 1 rfl rfl (.dict [(.scalar (.bool true), .int 1)]) _ rfl
  obtain ⟨_, declared⟩ := exactly.mp rfl
  obtain ⟨field, member, same⟩ := declared _ (List.mem_singleton.mpr rfl)
  cases same

end Conform
