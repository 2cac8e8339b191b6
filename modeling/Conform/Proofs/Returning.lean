import Conform.Proofs.Diagnosis
import Conform.Proofs.Equality
import Conform.Proofs.Faults
import Conform.Proofs.Meaning

/-!
Checks come to a verdict. What can stop one is known from the shape and the value
alone: nesting that is too deep, an integer with too many digits to be quoted in a
failure, and a declared name that is an index with too many digits to be read.
This covers the rendering of failures too.
-/
namespace Conform

/-- Only faults of this kind stop the run, or the showing of a path that it comes to. -/
def Check.Confined (p : Fault → Prop) (r : Run Verdict) : Prop :=
  FaultsIn p r.result ∧
    ∀ f, r.result = .ok (.reject f) → ∀ segment ∈ f.path, FaultsIn p segment.display

namespace Shape

inductive Declares : Shape → String → Prop where
  | field {tag : Nat} {closed : Bool} {fields : List (String × Shape)} {field : String × Shape}
      (member : field ∈ fields) : Declares (.struct tag closed fields) field.1
  | inside {s c : Shape} {name : String} (child : c ∈ s.children) (inner : Declares c name) :
      Declares s name

/-- What can stop the check of a value. A name that is an index too long to be read does so
    where it is looked up in a sequence. -/
def Stops (s : Shape) (v : Value) (fault : Fault) : Prop :=
  v.Hazard fault ∨ ∃ name digits w items, s.Declares name ∧ indexDigits? name = some digits ∧
    digitLimit < digits.length ∧ v.Part w ∧ w.items? = some items ∧
    fault = .unreadableInteger digits.length

/-- Literals are scalars, and a check of one's own is stopped by nothing but its value. -/
def Steady : Shape → Prop
  | .literal _ candidates => ∀ c ∈ candidates, ∃ a, c = .scalar a
  | .refined _ check | .custom check _ => ∀ v, Check.Confined v.Hazard (check v)
  | _ => True

/-- Comparing the value with literals comes to an end, and a check of one's own is stopped by
    nothing but the value. -/
def SettledOn (v : Value) : Shape → Prop
  | .literal _ candidates => ∃ found, someEqual v candidates = .ok found
  | .refined _ check | .custom check _ => Check.Confined v.Hazard (check v)
  | _ => True

def Declarative : Shape → Prop
  | .refined .. | .custom .. => False
  | .literal _ candidates => ∀ c ∈ candidates, ∃ a, c = .scalar a
  | _ => True

theorem Declarative.steady {s : Shape} (declarative : s.Declarative) : s.Steady := by
  cases s with
  | refined | custom => exact declarative.elim
  | literal => exact declarative
  | _ => trivial

def NamesReadable (s : Shape) : Prop :=
  s.Every fun
    | .struct _ _ fields =>
      ∀ field ∈ fields, ∀ digits, indexDigits? field.1 = some digits → digits.length ≤ digitLimit
    | _ => True

theorem NamesReadable.declared {s : Shape} {name : String} {digits : List Char}
    (readable : s.NamesReadable) (declares : s.Declares name)
    (index : indexDigits? name = some digits) : digits.length ≤ digitLimit := by
  induction declares with
  | field member => exact readable.at_root _ member digits index
  | inside child _ ih => exact ih (readable.at_child child) index

end Shape

theorem Value.Part.of_undefined {w : Value} (part : Value.undefined.Part w) : w = .undefined := by
  induction part with
  | whole => rfl
  | inside _ opened _ ih =>
    subst ih
    cases opened

theorem Value.not_hazard_undefined (fault : Fault) : ¬ Value.undefined.Hazard fault := by
  cases fault with
  | tooDeep =>
    refine not_not.mpr fun w part => ?_
    cases part.of_undefined
    exact Nat.zero_le _
  | unwritableInteger => exact not_not.mpr (.scalar trivial)
  | _ => exact id

theorem Shape.Stops.outward {s c : Shape} {v w : Value} (child : c ∈ s.children)
    (part : v.Part w ∨ w = .undefined) {fault : Fault} (stops : c.Stops w fault) :
    s.Stops v fault := by
  rcases part with part | rfl
  · rcases stops with hazard | ⟨name, digits, x, items, declared, index, long, inner, opened, same⟩
    · exact Or.inl (hazard.outward part)
    · exact Or.inr ⟨name, digits, x, items, .inside child declared, index, long,
        part.trans inner, opened, same⟩
  · rcases stops with hazard | ⟨name, digits, x, items, _, _, _, inner, opened, _⟩
    · exact absurd hazard (Value.not_hazard_undefined fault)
    · cases inner.of_undefined
      cases opened

namespace Check

variable {p q : Fault → Prop} {r : Run Verdict}

theorem Confined.mono (confined : Confined p r) (wider : ∀ fault, p fault → q fault) :
    Confined q r :=
  ⟨confined.1.mono wider, fun f rejected segment member =>
    (confined.2 f rejected segment member).mono wider⟩

theorem confined_accept : Confined p accept := by
  refine ⟨faultsIn_ok _, fun f rejected => ?_⟩
  cases rejected

theorem confined_fail (reason : Reason) : Confined p (fail reason) := by
  refine ⟨faultsIn_ok _, fun f rejected => ?_⟩
  cases rejected
  intro segment member
  cases member

theorem confined_bind {α : Type} {s : Run α} {next : α → Run Verdict} (first : FaultsIn p s.result)
    (rest : ∀ a, s.result = .ok a → Confined p (next a)) : Confined p (s >>= next) := by
  refine ⟨Run.bind_faults first fun a ending => (rest a ending).1, fun f rejected => ?_⟩
  obtain ⟨a, ending, after⟩ := Run.bind_ok_iff.mp rejected
  exact (rest a ending).2 f after

theorem confined_expect (what : String) {v : Value} (shown : FaultsIn p (Json.describe v)) :
    Confined p (expect what v) :=
  confined_bind shown fun got _ => confined_fail (.expected what got)

theorem Confined.andThen {next : Unit → Run Verdict} (first : Confined p r)
    (rest : Confined p (next ())) : Confined p (andThen r next) := by
  refine confined_bind first.1 fun verdict ending => ?_
  cases verdict with
  | accept => exact rest
  | reject f =>
    refine ⟨faultsIn_ok _, fun g rejected => ?_⟩
    cases rejected
    exact first.2 f ending

theorem Confined.inside {segment : Segment} (part : Confined p r)
    (shown : FaultsIn p segment.display) : Confined p (inside segment r) := by
  refine confined_bind part.1 fun verdict ending => ⟨faultsIn_ok _, fun g rejected => ?_⟩
  cases verdict with
  | accept => cases rejected
  | reject f =>
    cases rejected
    exact List.forall_mem_cons.mpr ⟨shown, part.2 f ending⟩

theorem Confined.render {f : Failure} (confined : Confined p r)
    (rejected : r.result = .ok (.reject f)) : FaultsIn p f.render := by
  have shown := confined.2 f rejected
  unfold Failure.render
  split
  · exact faultsIn_ok _
  · have parts : FaultsIn p (f.path.mapM Segment.render) :=
      faultsIn_mapM fun segment member => Segment.render_faults (shown segment member)
    exact (parts.bind fun texts _ => faultsIn_ok _).bind fun place _ => faultsIn_ok _

end Check

namespace Shape

open Check

variable {p : Fault → Prop}

theorem someEqual_returns {v : Value} {candidates : List Value}
    (each : ∀ c ∈ candidates, ∃ b, c.same v = .ok b) :
    ∃ found, someEqual v candidates = .ok found := by
  induction candidates with
  | nil => exact ⟨false, rfl⟩
  | cons c cs ih =>
    rw [List.forall_mem_cons] at each
    obtain ⟨b, equal⟩ := each.1
    obtain ⟨found, rest⟩ := ih each.2
    by_cases kind : c.kind = v.kind
    · cases b <;> simp [someEqual, kind, equal, rest, bind, Except.bind]
    · simp [someEqual, kind, rest]

theorem someEqual_ok (v : Value) {candidates : List Value}
    (scalars : ∀ c ∈ candidates, ∃ a, c = .scalar a) :
    ∃ found, someEqual v candidates = .ok found := by
  refine someEqual_returns fun c member => ?_
  obtain ⟨a, rfl⟩ := scalars c member
  cases v <;> exact ⟨_, rfl⟩

theorem checkItems_confined {check : Check} {items : List Value} {start : Nat}
    (each : ∀ x ∈ items, Confined p (check x))
    (indices : ∀ i < start + items.length, FaultsIn p (Segment.index i).display) :
    Confined p (checkItems check start items) := by
  induction items generalizing start with
  | nil => exact confined_accept
  | cons x items ih =>
    rw [List.forall_mem_cons] at each
    rw [List.length_cons] at indices
    refine (each.1.inside (indices start (by omega))).andThen ?_
    exact ih each.2 fun i below => indices i (by omega)

theorem checkEach_confined {ss : List Shape} {items : List Value} {start : Nat}
    (each : ∀ s ∈ ss, ∀ x ∈ items, Confined p (s.check x))
    (indices : ∀ i < start + items.length, FaultsIn p (Segment.index i).display) :
    Confined p (checkEach ss start items) := by
  induction ss generalizing items start with
  | nil => cases items <;> exact confined_accept
  | cons s ss ih =>
    cases items with
    | nil => exact confined_accept
    | cons x items =>
      rw [List.length_cons] at indices
      refine ((each s (by simp) x (by simp)).inside (indices start (by omega))).andThen ?_
      refine ih (fun t member y within => ?_) fun i below => indices i (by omega)
      exact each t (List.mem_cons_of_mem s member) y (List.mem_cons_of_mem x within)

def LabelConfined (p : Fault → Prop) (label : Except Fault Segment) : Prop :=
  FaultsIn p label ∧ ∀ segment, label = .ok segment → FaultsIn p segment.display

theorem LabelConfined.mono {q : Fault → Prop} {label : Except Fault Segment}
    (confined : LabelConfined p label) (wider : ∀ fault, p fault → q fault) :
    LabelConfined q label :=
  ⟨confined.1.mono wider, fun segment named => (confined.2 segment named).mono wider⟩

theorem checkLabelled_confined {check : Check} {parts : List (Except Fault Segment × Value)}
    (labels : ∀ part ∈ parts, LabelConfined p part.1)
    (each : ∀ part ∈ parts, Confined p (check part.2)) :
    Confined p (checkLabelled check parts) := by
  induction parts with
  | nil => exact confined_accept
  | cons part parts ih =>
    rw [List.forall_mem_cons] at labels each
    refine confined_bind labels.1.1 fun segment named => ?_
    exact (each.1.inside (labels.1.2 segment named)).andThen (ih labels.2 each.2)

theorem checkDeclared_confined {names : List String} {parts : List (Except Fault Segment × Value)}
    (labels : ∀ part ∈ parts, LabelConfined p part.1) : Confined p (checkDeclared names parts) := by
  induction parts with
  | nil => exact confined_accept
  | cons part parts ih =>
    rw [List.forall_mem_cons] at labels
    refine confined_bind labels.1.1 fun segment named => ?_
    split
    · exact ih labels.2
    · exact (confined_fail _).inside (labels.1.2 segment named)

theorem checkAny_confined {ss : List Shape} {v : Value} {rendered : List String}
    (each : ∀ s ∈ ss, Confined p (s.check v)) : Confined p (checkAny ss rendered v) := by
  induction ss generalizing rendered with
  | nil => exact confined_fail _
  | cons s ss ih =>
    rw [List.forall_mem_cons] at each
    refine confined_bind each.1.1 fun verdict tried => ?_
    cases verdict with
    | accept => exact confined_accept
    | reject f => exact confined_bind (each.1.render tried) fun text _ => ih each.2

theorem checkFields_confined {fields : List (String × Shape)} {c : Container}
    (looked : ∀ field ∈ fields, FaultsIn p (c.lookup field.1))
    (each : ∀ field ∈ fields, ∀ x, c.lookup field.1 = .ok x → Confined p (field.2.check x)) :
    Confined p (checkFields fields c) := by
  induction fields with
  | nil => exact confined_accept
  | cons field fields ih =>
    rw [List.forall_mem_cons] at looked each
    refine confined_bind looked.1 fun x found => ?_
    exact ((each.1 x found).inside (faultsIn_ok _)).andThen (ih looked.2 each.2)

theorem index_faults {v : Value} {items : List Value} (opened : v.items? = some items) :
    ∀ i < 0 + items.length, FaultsIn v.Hazard (Segment.index i).display := by
  intro i below
  refine integerText_faults (n := i) fun unwritable writable => unwritable ?_
  cases v with
  | seq name kind xs =>
    cases opened
    rw [Value.length_items, Nat.zero_add] at below
    exact Nat.lt_of_lt_of_le below writable.at_root
  | _ => cases opened

theorem labels_confined {v : Value} {c : Container} (opened : v.container? = some c) :
    ∀ part ∈ c.labelled, LabelConfined v.Hazard part.1 := by
  intro part member
  cases v with
  | seq name kind xs =>
    cases opened
    obtain ⟨i, within, rfl⟩ := List.mem_mapIdx.mp member
    refine ⟨faultsIn_ok _, fun segment same => ?_⟩
    cases same
    exact faultsIn_ok _
  | map name kind es =>
    cases opened
    obtain ⟨e, entry, rfl⟩ := List.mem_map.mp member
    have long : ¬ e.1.Writable → (Value.map name kind es).Hazard .unwritableInteger := by
      intro unwritable writable
      obtain ⟨f, written, same⟩ := Value.mem_entries entry
      exact unwritable (same ▸ writable.at_root f written)
    exact ⟨Key.segment_faults long, fun segment named => Key.segment_display_faults long named⟩
  | _ => cases opened

theorem Steady.settledOn {s : Shape} (steady : s.Steady) (v : Value) : s.SettledOn v := by
  cases s with
  | literal tag candidates => exact someEqual_ok v steady
  | refined | custom => exact steady v
  | _ => trivial

theorem confined_of_children {s : Shape} {v : Value} (settled : s.SettledOn v) {t : TypeExpr}
    (typed : s.typeExpr = .ok t)
    (inner : ∀ c ∈ s.children, ∀ w, v.Part w ∨ w = .undefined →
      Confined (s.Stops v) (c.check w)) : Confined (s.Stops v) (s.check v) := by
  have hazards : ∀ fault, v.Hazard fault → s.Stops v fault := fun fault hazard => Or.inl hazard
  have quoted : ∀ what, Confined (s.Stops v) (expect what v) := fun what =>
    confined_expect what ((Json.describe_faults v).mono hazards)
  have here : ∀ c ∈ s.children, Confined (s.Stops v) (c.check v) := fun c child =>
    inner c child v (Or.inl .whole)
  have below : ∀ c ∈ s.children, ∀ {container}, v.container? = some container →
      ∀ x ∈ container.values, Confined (s.Stops v) (c.check x) :=
    fun c child _ opened x member => inner c child x (Or.inl (.item opened member))
  cases s with
  | atomic k =>
    rw [check]
    split
    · exact confined_accept
    · exact quoted k.name
  | literal tag candidates =>
    obtain ⟨found, decided⟩ := settled
    obtain ⟨what, wanted, _⟩ := except_bind_ok_iff.mp typed
    refine confined_bind (decided ▸ faultsIn_ok found) fun matched _ => ?_
    split
    · exact confined_accept
    · exact confined_bind (wanted ▸ faultsIn_ok what) fun what _ => quoted what
  | optional base =>
    rw [check]
    split
    · exact confined_accept
    · exact here base (by simp [children])
  | nullable base =>
    by_cases null : v = .null
    · subst null
      exact confined_accept
    · rw [check_nullable null]
      exact here base (by simp [children])
  | array item =>
    rw [check]
    split
    · rename_i items opened
      refine checkItems_confined (fun x member => ?_) fun i within =>
        (index_faults opened i within).mono hazards
      exact below item (by simp [children]) (Value.container?_of_items? opened) x member
    · exact quoted "array"
  | record item =>
    rw [check]
    split
    · rename_i container opened
      refine checkLabelled_confined (fun part member => ?_) fun part member => ?_
      · exact (labels_confined opened part member).mono hazards
      · refine below item (by simp [children]) opened part.2 ?_
        rw [← Container.labelled_values]
        exact List.mem_map_of_mem member
    · exact quoted "object"
  | tuple ss =>
    rw [check]
    split
    · rename_i items opened
      split
      · refine checkEach_confined (fun c child x member => ?_) fun i within =>
          (index_faults opened i within).mono hazards
        exact below c child (Value.container?_of_items? opened) x member
      · exact confined_fail _
    · exact quoted "tuple"
  | either left right =>
    have first := here left (by simp [children])
    have second := here right (by simp [children])
    refine confined_bind first.1 fun verdict tried => ?_
    cases verdict with
    | accept => exact confined_accept
    | reject f =>
      refine confined_bind second.1 fun verdict retried => ?_
      cases verdict with
      | accept => exact confined_accept
      | reject g =>
        refine confined_bind (first.render tried) fun _ _ => ?_
        exact confined_bind (second.render retried) fun _ _ => confined_fail _
  | anyOf ss => exact checkAny_confined here
  | both left right =>
    exact (here left (by simp [children])).andThen (here right (by simp [children]))
  | merge tag left right =>
    exact (here left (by simp [children])).andThen (here right (by simp [children]))
  | refined base refine =>
    exact (here base (by simp [children])).andThen (Confined.mono settled hazards)
  | custom own type => exact Confined.mono settled hazards
  | struct tag closed fields =>
    rw [check]
    split
    · rename_i container opened
      refine Confined.andThen ?_ ?_
      · refine checkFields_confined (fun field member => ?_) fun field member x looked => ?_
        · refine (Container.lookup_faults container field.1).mono ?_
          rintro fault ⟨items, digits, rfl, index, long, same⟩
          refine Or.inr ⟨field.1, digits, v, items, .field member, index, long, .whole, ?_, same⟩
          rw [Value.items?, opened]
        · refine inner field.2 (field_child member) x ?_
          exact (Container.lookup_mem_values looked).imp_left fun held => .item opened held
      · split
        · exact checkDeclared_confined fun part member =>
            (labels_confined opened part member).mono hazards
        · exact confined_accept
    · exact quoted "struct"

theorem part_or_undefined {v w x : Value} (outer : v.Part w ∨ w = .undefined)
    (inner : w.Part x ∨ x = .undefined) : v.Part x ∨ x = .undefined := by
  rcases inner with inner | rfl
  · rcases outer with outer | rfl
    · exact Or.inl (outer.trans inner)
    · exact Or.inr inner.of_undefined
  · exact Or.inr rfl

/-- A check is confined on a value when it is settled on all that it comes to there. -/
theorem check_confined_of_settled {s : Shape} {v : Value}
    (settled : s.Every fun c => ∀ w, v.Part w ∨ w = .undefined → c.SettledOn w) {t : TypeExpr}
    (typed : s.typeExpr = .ok t) : Confined (s.Stops v) (s.check v) := by
  induction s using childInduction generalizing t v with
  | step s ih =>
    refine confined_of_children (settled.at_root v (Or.inl .whole)) typed fun c child w part => ?_
    obtain ⟨u, built⟩ := typeExpr_child typed child
    have inner := (settled.at_child child).mono fun _ here x inside =>
      here x (part_or_undefined part inside)
    exact (ih c child inner built).mono fun fault stops => stops.outward child part

theorem check_confined {s : Shape} (steady : s.Every Steady) {t : TypeExpr}
    (typed : s.typeExpr = .ok t) (v : Value) : Confined (s.Stops v) (s.check v) :=
  check_confined_of_settled (steady.mono fun _ here w _ => here.settledOn w) typed

end Shape

theorem allSame_returns {same : Value → Value → Except Fault Bool} {vs ws : List Value}
    (each : ∀ v ∈ vs, ∀ w ∈ ws, ∃ b, same v w = .ok b) : ∃ b, allSame same vs ws = .ok b := by
  induction vs generalizing ws with
  | nil => cases ws <;> exact ⟨_, rfl⟩
  | cons v vs ih =>
    cases ws with
    | nil => exact ⟨_, rfl⟩
    | cons w ws =>
      obtain ⟨b, first⟩ := each v (by simp) w (by simp)
      obtain ⟨c, rest⟩ := ih fun x inside y within =>
        each x (List.mem_cons_of_mem v inside) y (List.mem_cons_of_mem w within)
      cases b <;> simp [allSame, first, rest, bind, Except.bind]

theorem allFound_returns {same : Value → Value → Except Fault Bool}
    {others es : List (Key × Value)}
    (each : ∀ e ∈ es, ∀ f ∈ others, ∃ b, same e.2 f.2 = .ok b) :
    ∃ b, allFound same others es = .ok b := by
  induction es with
  | nil => exact ⟨_, rfl⟩
  | cons e es ih =>
    rw [List.forall_mem_cons] at each
    cases found : valueUnder? others e.1 with
    | none => simp [allFound, found]
    | some x =>
      obtain ⟨f, member, rfl⟩ := valueUnder?_mem found
      obtain ⟨b, first⟩ := each.1 f member
      obtain ⟨c, rest⟩ := ih each.2
      cases b <;> simp [allFound, found, first, rest, bind, Except.bind]

/-- Comparison with a value that holds no container inside itself comes to an end within the
    depth of that value, whatever the other value is. -/
theorem Value.sameUpTo_returns {room : Nat} {c v : Value} (acyclic : v.Acyclic)
    (fits : v.depth ≤ room) :
    (∃ b, sameUpTo room c v = .ok b) ∧ ∃ b, sameUpTo room v c = .ok b := by
  induction v using childInduction generalizing room c with
  | step v ih =>
    have inner : ∀ {left}, v.depth ≤ left + 1 → ∀ y ∈ v.children, ∀ x,
        (∃ b, sameUpTo left x y = .ok b) ∧ ∃ b, sameUpTo left y x = .ok b := by
      intro left fits y child x
      refine ih y child (acyclic.at_child child) (Nat.le_of_lt_succ ?_)
      exact Nat.lt_of_lt_of_le (depth_child_lt child) fits
    cases v with
    | scalar | set | again => cases c <;> cases room <;> exact ⟨⟨_, rfl⟩, ⟨_, rfl⟩⟩
    | seq n k ys =>
      cases room with
      | zero => cases fits
      | succ left =>
        have part : ∀ y ∈ items n k ys, ∀ x,
            (∃ b, sameUpTo left x y = .ok b) ∧ ∃ b, sameUpTo left y x = .ok b := by
          rw [items_of_acyclic acyclic]
          exact inner fits
        cases c with
        | seq m j xs =>
          constructor <;> rw [sameUpTo_seqs] <;> split
          · exact ⟨_, rfl⟩
          · exact allSame_returns fun x _ y member => (part y member x).1
          · exact ⟨_, rfl⟩
          · exact allSame_returns fun y member x _ => (part y member x).2
        | _ => exact ⟨⟨_, rfl⟩, ⟨_, rfl⟩⟩
    | map n k fs =>
      cases room with
      | zero => cases fits
      | succ left =>
        have part : ∀ f ∈ entries n k fs, ∀ x,
            (∃ b, sameUpTo left x f.2 = .ok b) ∧ ∃ b, sameUpTo left f.2 x = .ok b := by
          rw [entries_of_acyclic acyclic]
          exact fun f member => inner fits f.2 (mem_children_of_entry member)
        cases c with
        | map m j es =>
          constructor
          · rw [sameUpTo_maps]
            split
            · exact ⟨_, rfl⟩
            · cases k with
              | mutable => exact allFound_returns fun e _ f member => (part f member e.2).1
              | frozen => exact allFound_returns fun f member e _ => (part f member e.2).2
          · rw [sameUpTo_maps]
            split
            · exact ⟨_, rfl⟩
            · cases j with
              | mutable => exact allFound_returns fun f member e _ => (part f member e.2).2
              | frozen => exact allFound_returns fun e _ f member => (part f member e.2).1
        | _ => exact ⟨⟨_, rfl⟩, ⟨_, rfl⟩⟩

/-- Without checks of one's own, and on a value that holds no container inside itself, literals
    may be any values. -/
theorem Shape.check_confined_acyclic {s : Shape} (builtin : s.Every Builtin) {t : TypeExpr}
    (typed : s.typeExpr = .ok t) {v : Value} (acyclic : v.Acyclic)
    (fits : v.depth ≤ nestingLimit) : Check.Confined (s.Stops v) (s.check v) := by
  refine check_confined_of_settled (builtin.mono fun c own w part => ?_) typed
  have followed : w.Acyclic ∧ w.depth ≤ nestingLimit := by
    rcases part with part | rfl
    · obtain ⟨free, inside⟩ := acyclic.part part
      exact ⟨free, Nat.le_trans inside fits⟩
    · exact ⟨.scalar trivial, Nat.zero_le _⟩
  cases c with
  | literal tag candidates =>
    exact someEqual_returns fun c _ => (Value.sameUpTo_returns followed.1 followed.2).1
  | refined | custom => exact own.elim
  | _ => trivial

theorem Check.Confined.toError {p : Fault → Prop} {r : Run Verdict} {f : Failure}
    (confined : Confined p r) (rejected : r.result = .ok (.reject f)) : FaultsIn p f.toError :=
  (confined.render rejected).bind fun _ _ => faultsIn_ok _

namespace Schema

variable {s : Schema} {v : Value} (confined : Check.Confined (s.shape.Stops v) (s.shape.check v))
include confined

theorem validateBase_faults : FaultsIn (s.shape.Stops v) (s.validateBase v).result := by
  refine Run.bind_faults confined.1 fun verdict _ => ?_
  cases verdict <;> exact faultsIn_ok _

theorem validate_faults : FaultsIn (s.shape.Stops v) (s.validate v).result := by
  refine Run.bind_faults (validateBase_faults confined) fun r ending => ?_
  rcases validateBase_ok_iff.mp ending with ⟨_, rfl⟩ | ⟨f, rejected, rfl⟩
  · exact faultsIn_ok _
  · exact Run.bind_faults (confined.toError rejected) fun _ _ => faultsIn_ok _

theorem guard_faults {onFailure : OnFailure} (quiet : onFailure ≠ .throw) :
    FaultsIn (s.shape.Stops v) (s.guard v onFailure).result := by
  refine Run.bind_faults (validateBase_faults confined) fun r ending => ?_
  rcases validateBase_ok_iff.mp ending with ⟨_, rfl⟩ | ⟨f, rejected, rfl⟩
  · exact faultsIn_ok _
  · cases onFailure with
    | ignore => exact faultsIn_ok _
    | collect => exact Run.bind_faults (confined.toError rejected) fun _ _ => faultsIn_ok _
    | throw => exact absurd rfl quiet

end Schema

theorem Shape.not_stops {s : Shape} {v : Value} (shallow : v.Shallow) (writable : v.Writable)
    (readable : s.NamesReadable) (fault : Fault) : ¬ s.Stops v fault := by
  rintro (hazard | ⟨name, digits, _, _, declared, index, long, _⟩)
  · cases fault with
    | tooDeep => exact hazard shallow
    | unwritableInteger => exact hazard writable
    | _ => exact hazard
  · exact absurd (readable.declared declared index) (Nat.not_le_of_lt long)

/-- Validation, the form of it that keeps the failure, and the guard return a result, unless
    one of the known faults stops them. With nesting that is followed, integers that can be
    written and declared names that can be read they return a result. -/
theorem validation_returns (s : Schema) (steady : s.shape.Every Shape.Steady) (v : Value) :
    (FaultsIn (s.shape.Stops v) (s.validate v).result ∧
      FaultsIn (s.shape.Stops v) (s.validateBase v).result ∧
      ∀ onFailure, onFailure ≠ .throw →
        FaultsIn (s.shape.Stops v) (s.guard v onFailure).result) ∧
    (v.Shallow → v.Writable → s.shape.NamesReadable →
      (∃ r, (s.validate v).result = .ok r) ∧ (∃ r, (s.validateBase v).result = .ok r) ∧
      ∀ onFailure, onFailure ≠ .throw → ∃ r, (s.guard v onFailure).result = .ok r) := by
  have confined := Shape.check_confined steady s.typed v
  refine ⟨⟨Schema.validate_faults confined, Schema.validateBase_faults confined,
    fun onFailure quiet => Schema.guard_faults confined quiet⟩, ?_⟩
  intro shallow writable readable
  have none := Shape.not_stops shallow writable readable
  exact ⟨(Schema.validate_faults confined).returns none,
    (Schema.validateBase_faults confined).returns none,
    fun onFailure quiet => (Schema.guard_faults confined quiet).returns none⟩

def rowsOrTable : Schema where
  shape := .either (.array (.atomic .string)) (.struct 0 true [("0", .record (.atomic .number))])
  type := .union [.list .text, .struct 0 [("0", .record (.union [.int, .float]), true)]]
  typed := rfl

def loop : Value := .seq (some 0) .mutable [.again 0, .text "x"]

theorem every_rowsOrTable {p : Shape → Prop} (either : p rowsOrTable.shape)
    (array : p (.array (.atomic .string))) (string : p (.atomic .string))
    (struct : p (.struct 0 true [("0", .record (.atomic .number))]))
    (record : p (.record (.atomic .number))) (number : p (.atomic .number)) :
    rowsOrTable.shape.Every p := by
  have leaf : ∀ k, p (.atomic k) → (Shape.atomic k).Every p := fun k own => .leaf own rfl
  have rows : (Shape.array (.atomic .string)).Every p :=
    .node array (List.forall_mem_singleton.mpr (leaf .string string))
  have table : (Shape.struct 0 true [("0", .record (.atomic .number))]).Every p :=
    .node struct (List.forall_mem_singleton.mpr
      (.node record (List.forall_mem_singleton.mpr (leaf .number number))))
  exact .node either (List.forall_mem_cons.mpr ⟨rows, List.forall_mem_singleton.mpr table⟩)

theorem loop_shallow : loop.Shallow := by
  intro w part
  suffices w = loop ∨ w = .text "x" by
    rcases this with rfl | rfl <;> decide
  induction part with
  | whole => exact Or.inl rfl
  | inside _ opened member ih =>
    rcases ih with rfl | rfl
    · cases opened
      rcases List.mem_pair.mp member with rfl | rfl
      · exact Or.inl rfl
      · exact Or.inr rfl
    · cases opened

theorem every_loop {p : Value → Prop} (list : p loop) (again : p (.again 0)) (text : p (.text "x")) :
    loop.Every p := by
  refine .node list (List.forall_mem_cons.mpr ⟨?_, List.forall_mem_singleton.mpr (.scalar text)⟩)
  exact .node again fun c child => by cases child

theorem loop_writable : loop.Writable :=
  every_loop (Digits.le_pow (by decide) (by decide)) trivial trivial

theorem loop_returns :
    (∃ r, (rowsOrTable.validate loop).result = .ok r) ∧
      (∃ r, (rowsOrTable.validateBase loop).result = .ok r) ∧
      (∃ r, (rowsOrTable.guard loop .ignore).result = .ok r) := by
  have steady : rowsOrTable.shape.Every Shape.Steady :=
    every_rowsOrTable trivial trivial trivial trivial trivial trivial
  have readable : rowsOrTable.shape.NamesReadable := by
    refine every_rowsOrTable trivial trivial trivial ?_ trivial trivial
    intro field member digits index
    cases List.mem_singleton.mp member
    cases index
    decide
  obtain ⟨validate, validateBase, guard⟩ :=
    (validation_returns rowsOrTable steady loop).2 loop_shallow loop_writable readable
  exact ⟨validate, validateBase, guard .ignore (by decide)⟩

theorem not_writable {n : Nat} (large : Nat.pow 10 digitLimit ≤ n) : ¬ WritableInteger n := by
  unfold WritableInteger
  rw [Int.natAbs_natCast]
  exact Nat.not_lt_of_le large

theorem Json.describe_long {n : Int} (long : ¬ WritableInteger n) :
    describe (.int n) = .error .unwritableInteger := by
  have shown : integerText n = .error .unwritableInteger := if_neg long
  have unwritten : integer n = .error .integer := by
    unfold integer
    rw [shown]
  have written : write descriptive (.int n) = .error .integer := unwritten
  have quoted : Value.repr (.int n) = .error .unwritableInteger := shown
  unfold describe
  rw [written, quoted]
  rfl

theorem Shape.check_string_long {n : Int} (long : ¬ WritableInteger n) (verdict : Verdict) :
    (check (.atomic .string) (.int n)).result ≠ .ok verdict := by
  have other : (Value.int n).kind ≠ AtomicKind.string.kind := by
    change (if n.natAbs ≤ maxSafeInteger then Kind.number else Kind.bigint) ≠ .string
    split <;> decide
  intro checked
  rw [check, if_neg other] at checked
  obtain ⟨got, quoted, _⟩ := Check.expect_result_iff.mp checked
  rw [Json.describe_long long] at quoted
  cases quoted

def textOnly : Schema where
  shape := .atomic .string
  type := .text
  typed := rfl

/-- An integer that is too long to be written is not turned down as anything else is. -/
theorem long_integer_stops :
    ¬ ∀ (s : Schema) (v : Value), s.shape.Every Shape.Declarative → v.Shallow →
      (∃ r, (s.validate v).result = .ok r) ∧ (∃ r, (s.validateBase v).result = .ok r) ∧
        ∃ r, (s.guard v .ignore).result = .ok r := by
  intro always
  have declarative : textOnly.shape.Every Shape.Declarative := .leaf trivial rfl
  obtain ⟨n, large⟩ : ∃ n, Nat.pow 10 digitLimit ≤ n := ⟨_, Nat.le_refl _⟩
  have long := not_writable large
  have shallow : (Value.int n).Shallow :=
    Value.Acyclic.shallow (.scalar trivial) (Nat.zero_le _)
  obtain ⟨_, ⟨r, ending⟩, _⟩ := always textOnly (.int n) declarative shallow
  rcases Schema.validateBase_ok_iff.mp ending with ⟨accepted, _⟩ | ⟨f, rejected, _⟩
  · exact Shape.check_string_long long _ accepted
  · exact Shape.check_string_long long _ rejected

end Conform
