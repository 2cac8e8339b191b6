import Conform.Proofs.Reordered
import Conform.Proofs.Returning

/-!
Acceptance does not depend on the order in which the entries of maps were made. What a
shape admits is said by what is stored under which key, and equality with a literal does
not see the order either. Which failure is met first may depend on it, but only where
entries are met one after the other, in a record or a closed struct.
-/
namespace Conform

/-- Values without cycles and without equal keys that differ in the order of entries alone. -/
structure Value.Rearranged (v w : Value) : Prop where
  acyclic : v.Acyclic
  distinct : v.Every NodeDistinct
  reordered : v.Reordered w

namespace Value.Rearranged

variable {v w : Value}

theorem symm (same : v.Rearranged w) : w.Rearranged v :=
  ⟨same.reordered.acyclic same.acyclic, same.reordered.distinct same.distinct,
    same.reordered.symm⟩

theorem undefined : Value.undefined.Rearranged .undefined :=
  ⟨.scalar trivial, .scalar trivial, .scalar _⟩

theorem eq_undefined_iff (same : v.Rearranged w) : v = .undefined ↔ w = .undefined := by
  cases same.reordered <;> simp

theorem eq_null_iff (same : v.Rearranged w) : v = .null ↔ w = .null := by
  cases same.reordered <;> simp

theorem of_child {x y : Value} (same : v.Rearranged w) (child : x ∈ v.children)
    (related : x.Reordered y) : x.Rearranged y :=
  ⟨same.acyclic.at_child child, same.distinct.at_child child, related⟩

end Value.Rearranged

inductive Container.Rearranged : Container → Container → Prop where
  | seq {xs ys : List Value} (each : List.Forall₂ Value.Rearranged xs ys) :
      Rearranged (.seq xs) (.seq ys)
  | map {es gs : List (Key × Value)} (distinct : KeysDistinct es)
      (matched : Matched (Value.EntryRelated Value.Rearranged) es gs) :
      Rearranged (.map es) (.map gs)

theorem Value.Rearranged.container {v w : Value} (same : v.Rearranged w) {c : Container}
    (opened : v.container? = some c) : ∃ d, w.container? = some d ∧ c.Rearranged d := by
  have acyclic := same.acyclic
  have acyclic' := same.symm.acyclic
  have reordered := same.reordered
  cases reordered with
  | scalar | set | again => cases opened
  | @seq n k xs ys length each =>
    cases opened
    refine ⟨_, rfl, ?_⟩
    rw [Value.items_of_acyclic acyclic, Value.items_of_acyclic acyclic']
    refine .seq ((forall₂_members (Value.items_related length each)).imp fun x y both => ?_)
    exact same.of_child both.1 both.2
  | @map n k es fs gs moved length keys each =>
    cases opened
    refine ⟨_, rfl, ?_⟩
    rw [Value.entries_of_acyclic acyclic, Value.entries_of_acyclic acyclic']
    refine .map same.distinct.at_root ?_
    refine (Value.entries_matched moved length keys each).mono fun e member g related => ?_
    exact ⟨related.1, same.of_child (Value.mem_children_of_entry member) related.2⟩

theorem Value.Rearranged.items {v w : Value} (same : v.Rearranged w) {xs : List Value}
    (opened : v.items? = some xs) :
    ∃ ys, w.items? = some ys ∧ List.Forall₂ Value.Rearranged xs ys := by
  obtain ⟨d, opened', related⟩ := same.container (Value.container?_of_items? opened)
  cases related with
  | seq each => exact ⟨_, by rw [Value.items?, opened'], each⟩

theorem Value.Rearranged.container_or {v w : Value} (same : v.Rearranged w) :
    (v.container? = none ∧ w.container? = none) ∨
      ∃ c d, v.container? = some c ∧ w.container? = some d ∧ c.Rearranged d := by
  cases opened : v.container? with
  | some c =>
    obtain ⟨d, opened', related⟩ := same.container opened
    exact Or.inr ⟨c, d, rfl, opened', related⟩
  | none =>
    refine Or.inl ⟨rfl, Option.eq_none_iff_forall_ne_some.mpr fun d opened' => ?_⟩
    obtain ⟨c, other, _⟩ := same.symm.container opened'
    cases opened.symm.trans other

theorem Value.Rearranged.items_or {v w : Value} (same : v.Rearranged w) :
    (v.items? = none ∧ w.items? = none) ∨ ∃ xs ys, v.items? = some xs ∧ w.items? = some ys ∧
      List.Forall₂ Value.Rearranged xs ys := by
  rcases same.container_or with ⟨none, none'⟩ | ⟨c, d, opened, opened', related⟩
  · rw [items?, items?, none, none']
    exact Or.inl ⟨rfl, rfl⟩
  · rw [items?, items?, opened, opened']
    cases related with
    | seq each => exact Or.inr ⟨_, _, rfl, rfl, each⟩
    | map => exact Or.inl ⟨rfl, rfl⟩

namespace Container.Rearranged

variable {c d : Container}

theorem values (same : c.Rearranged d) : Matched Value.Rearranged c.values d.values := by
  cases same with
  | seq each => exact .of_forall₂ each
  | map distinct matched => exact matched.map fun _ _ related => related.2

theorem labels (same : c.Rearranged d) {part : Except Fault Segment × Value}
    (member : part ∈ d.labelled) : ∃ other ∈ c.labelled, other.1 = part.1 := by
  cases same with
  | @seq xs ys each =>
    obtain ⟨i, inside, rfl⟩ := List.mem_mapIdx.mp member
    have inside' : i < xs.length := each.length_eq ▸ inside
    exact ⟨_, List.mem_mapIdx.mpr ⟨i, inside', rfl⟩, rfl⟩
  | map distinct matched =>
    obtain ⟨g, entry, rfl⟩ := List.mem_map.mp member
    obtain ⟨e, other, key, _⟩ := matched.exists_left entry
    exact ⟨_, List.mem_map_of_mem other, congrArg Key.segment key⟩

theorem holds (same : c.Rearranged d) {name : String} {x : Value} (held : c.Holds name x) :
    ∃ y, d.Holds name y ∧ x.Rearranged y := by
  cases same with
  | @seq xs ys each =>
    rcases held with ⟨i, named, found⟩ | ⟨none, rfl⟩
    · obtain ⟨inside, rfl⟩ := List.getElem?_eq_some_iff.mp found
      have inside' : i < ys.length := each.length_eq ▸ inside
      exact ⟨ys[i], Or.inl ⟨i, named, List.getElem?_eq_getElem inside'⟩,
        each.get inside inside'⟩
    · refine ⟨_, Or.inr ⟨fun i inside => none i ?_, rfl⟩, .undefined⟩
      rwa [each.length_eq]
  | @map es gs distinct matched =>
    cases held
    refine ⟨_, rfl, ?_⟩
    cases found : valueUnder? es (.scalar (.text name)) with
    | some x =>
      obtain ⟨y, also, related⟩ := Value.valueUnder?_of_matched matched distinct found
      rwa [also]
    | none =>
      cases other : valueUnder? gs (.scalar (.text name)) with
      | none => exact .undefined
      | some y =>
        have backward : Matched (Value.EntryRelated Value.Rearranged) gs es :=
          matched.symm fun e g related => ⟨related.1.symm, related.2.symm⟩
        have distinct' := Value.keysDistinct_of_matched matched distinct
        obtain ⟨x, also, _⟩ := Value.valueUnder?_of_matched backward distinct' other
        cases found.symm.trans also

end Container.Rearranged

namespace Shape

theorem admits_of_rearranged {s : Shape} (builtin : s.Every Builtin) {v w : Value}
    (same : v.Rearranged w) (admits : s.Admits v) : s.Admits w := by
  induction s using childInduction generalizing v w with
  | step s ih =>
    have part : ∀ c ∈ s.children, ∀ {x y : Value}, x.Rearranged y → c.Admits x → c.Admits y :=
      fun c child _ _ related => ih c child (builtin.at_child child) related
    cases s with
    | atomic k => exact same.reordered.kind_eq.symm.trans admits
    | literal tag candidates =>
      obtain ⟨c, member, kind, equal⟩ := admits
      have alike := same.reordered.equalAlike same.acyclic same.distinct
      exact ⟨c, member, kind.trans same.reordered.kind_eq, (alike _ c).1 equal⟩
    | optional base =>
      exact admits.imp same.eq_undefined_iff.mp (part base (by simp [children]) same)
    | nullable base =>
      exact admits.imp same.eq_null_iff.mp (part base (by simp [children]) same)
    | array item =>
      obtain ⟨xs, opened, all⟩ := admits
      obtain ⟨ys, opened', each⟩ := same.items opened
      refine ⟨ys, opened', fun y member => ?_⟩
      obtain ⟨x, inside, related⟩ := (Matched.of_forall₂ each).exists_left member
      exact part item (by simp [children]) related (all x inside)
    | record item =>
      obtain ⟨c, opened, all⟩ := admits
      obtain ⟨d, opened', related⟩ := same.container opened
      refine ⟨d, opened', fun y member => ?_⟩
      obtain ⟨x, inside, related⟩ := related.values.exists_left member
      exact part item (by simp [children]) related (all x inside)
    | tuple ss =>
      obtain ⟨xs, opened, all⟩ := admits
      obtain ⟨ys, opened', each⟩ := same.items opened
      have placed := forall₂_members (admitsEach_iff.mp all)
      refine ⟨ys, opened', admitsEach_iff.mpr ?_⟩
      refine forall₂_comp (fun s x y holds same => ?_) placed each
      exact part s holds.1 same holds.2
    | either left right =>
      exact admits.imp (part left (by simp [children]) same) (part right (by simp [children]) same)
    | anyOf ss =>
      obtain ⟨s, member, holds⟩ := admitsSome_iff.mp admits
      exact admitsSome_iff.mpr ⟨s, member, part s member same holds⟩
    | both left right | merge tag left right =>
      exact admits.imp (part left (by simp [children]) same) (part right (by simp [children]) same)
    | refined | custom => exact builtin.at_root.elim
    | struct tag closed fields =>
      obtain ⟨c, opened, all, declared⟩ := admits
      obtain ⟨d, opened', related⟩ := same.container opened
      refine ⟨d, opened', admitsFields_iff.mpr fun field member => ?_, fun strict place met => ?_⟩
      · obtain ⟨x, held, holds⟩ := admitsFields_iff.mp all field member
        obtain ⟨y, held', same'⟩ := related.holds held
        exact ⟨y, held', part field.2 (field_child member) same' holds⟩
      · obtain ⟨other, there, label⟩ := related.labels met
        exact label ▸ declared strict other there

theorem admits_iff_of_rearranged {s : Shape} (builtin : s.Every Builtin) {v w : Value}
    (same : v.Rearranged w) : s.Admits v ↔ s.Admits w :=
  ⟨admits_of_rearranged builtin same, admits_of_rearranged builtin same.symm⟩

end Shape

def Verdict.place? : Verdict → Option (List Segment)
  | .accept => none
  | .reject f => some f.path

namespace Check

/-- If both runs come to a verdict, they accept or they fail at one place. -/
def SamePlace (r q : Run Verdict) : Prop :=
  ∀ x y, r.result = .ok x → q.result = .ok y → x.place? = y.place?

variable {r q : Run Verdict}

theorem samePlace_accept : SamePlace accept accept := by
  intro x y first second
  cases first
  cases second
  rfl

theorem samePlace_reject {f g : Failure} (same : f.path = g.path) :
    SamePlace (pure (.reject f)) (pure (.reject g)) := by
  intro x y first second
  cases first
  cases second
  exact congrArg some same

theorem samePlace_fail (why wherefore : Reason) : SamePlace (fail why) (fail wherefore) :=
  samePlace_reject rfl

theorem samePlace_bind {α β : Type} {a : Run α} {b : Run β} {next : α → Run Verdict}
    {other : β → Run Verdict}
    (rest : ∀ x y, a.result = .ok x → b.result = .ok y → SamePlace (next x) (other y)) :
    SamePlace (a >>= next) (b >>= other) := by
  intro x y first second
  obtain ⟨c, earlier, ending⟩ := Run.bind_ok_iff.mp first
  obtain ⟨d, earlier', ending'⟩ := Run.bind_ok_iff.mp second
  exact rest c d earlier earlier' x y ending ending'

theorem samePlace_expect (what : String) (v w : Value) :
    SamePlace (expect what v) (expect what w) :=
  samePlace_bind fun _ _ _ _ => samePlace_fail _ _

theorem SamePlace.then {next other : Verdict → Run Verdict} (first : SamePlace r q)
    (accepted : SamePlace (next .accept) (other .accept))
    (rejected : ∀ f g, f.path = g.path → SamePlace (next (.reject f)) (other (.reject g))) :
    SamePlace (r >>= next) (q >>= other) := by
  refine samePlace_bind fun x y ends ends' => ?_
  have places := first x y ends ends'
  cases x with
  | accept =>
    cases y with
    | accept => exact accepted
    | reject g => cases places
  | reject f =>
    cases y with
    | accept => cases places
    | reject g => exact rejected f g (Option.some.inj places)

theorem SamePlace.inside (same : SamePlace r q) (segment : Segment) :
    SamePlace (inside segment r) (inside segment q) :=
  same.then samePlace_accept fun _ _ path => samePlace_reject (congrArg (segment :: ·) path)

theorem SamePlace.andThen {next other : Unit → Run Verdict} (first : SamePlace r q)
    (rest : SamePlace (next ()) (other ())) : SamePlace (andThen r next) (andThen q other) :=
  first.then rest fun _ _ path => samePlace_reject path

end Check

namespace Shape

open Check

/-- No part of a value is met in the order of entries: there is no record and no closed struct. -/
def ByName : Shape → Prop
  | .record _ => False
  | .struct _ closed _ => closed = false
  | _ => True

theorem samePlace_literal (candidates : List Value) {v w : Value} (same : v.Rearranged w) :
    SamePlace (checkLiteral candidates v) (checkLiteral candidates w) := by
  refine samePlace_bind fun found other decided decided' => ?_
  have alike : found = other := by
    rw [Bool.eq_iff_iff, someEqual_decides decided, someEqual_decides decided']
    exact admits_iff_of_rearranged (s := .literal 0 candidates) (.leaf trivial rfl) same
  subst alike
  cases found with
  | true => exact samePlace_accept
  | false =>
    refine samePlace_bind fun what other wanted wanted' => ?_
    cases wanted.symm.trans wanted'
    exact samePlace_expect what v w

theorem samePlace_items {check : Check} {xs ys : List Value}
    (each : List.Forall₂ (fun x y => SamePlace (check x) (check y)) xs ys) (start : Nat) :
    SamePlace (checkItems check start xs) (checkItems check start ys) := by
  induction each generalizing start with
  | nil => exact samePlace_accept
  | cons head tail ih => exact (head.inside _).andThen (ih (start + 1))

theorem samePlace_each {ss : List Shape} {xs ys : List Value}
    (each : ∀ s ∈ ss, ∀ x y, x.Rearranged y → SamePlace (s.check x) (s.check y))
    (related : List.Forall₂ Value.Rearranged xs ys) (start : Nat) :
    SamePlace (checkEach ss start xs) (checkEach ss start ys) := by
  induction ss generalizing xs ys start with
  | nil => cases related <;> exact samePlace_accept
  | cons s ss ih =>
    rw [List.forall_mem_cons] at each
    cases related with
    | nil => exact samePlace_accept
    | cons head tail => exact ((each.1 _ _ head).inside _).andThen (ih each.2 tail (start + 1))

theorem samePlace_any {ss : List Shape} {v w : Value}
    (each : ∀ s ∈ ss, SamePlace (s.check v) (s.check w)) (texts others : List String) :
    SamePlace (checkAny ss texts v) (checkAny ss others w) := by
  induction ss generalizing texts others with
  | nil => exact samePlace_fail _ _
  | cons s ss ih =>
    rw [List.forall_mem_cons] at each
    refine each.1.then samePlace_accept fun f g _ => ?_
    exact samePlace_bind fun _ _ _ _ => ih each.2 _ _

theorem samePlace_fields {fields : List (String × Shape)} {c d : Container}
    (related : c.Rearranged d)
    (each : ∀ field ∈ fields, ∀ x y, x.Rearranged y →
      SamePlace (field.2.check x) (field.2.check y)) :
    SamePlace (checkFields fields c) (checkFields fields d) := by
  induction fields with
  | nil => exact samePlace_accept
  | cons field fields ih =>
    rw [List.forall_mem_cons] at each
    refine samePlace_bind fun x y looked looked' => ?_
    obtain ⟨z, held, same⟩ := related.holds (Container.holds_of_lookup looked)
    cases Container.holds_unique held (Container.holds_of_lookup looked')
    exact ((each.1 x _ same).inside _).andThen (ih each.2)

theorem check_samePlace {s : Shape} (builtin : s.Every Builtin) (named : s.Every ByName)
    {v w : Value} (same : v.Rearranged w) : SamePlace (s.check v) (s.check w) := by
  induction s using childInduction generalizing v w with
  | step s ih =>
    have part : ∀ c ∈ s.children, ∀ x y, x.Rearranged y → SamePlace (c.check x) (c.check y) :=
      fun c child x y related => ih c child (builtin.at_child child) (named.at_child child) related
    cases s with
    | atomic k =>
      rw [check, check, same.reordered.kind_eq]
      split
      · exact samePlace_accept
      · exact samePlace_expect _ _ _
    | literal tag candidates => exact samePlace_literal candidates same
    | optional base =>
      have absent : v.isUndefined = w.isUndefined := by
        cases same.reordered <;> rfl
      rw [check, check, absent]
      split
      · exact samePlace_accept
      · exact part base (by simp [children]) v w same
    | nullable base =>
      by_cases null : v = .null
      · cases same.eq_null_iff.mp null
        cases null
        exact samePlace_accept
      · rw [check_nullable null, check_nullable (mt same.eq_null_iff.mpr null)]
        exact part base (by simp [children]) v w same
    | array item =>
      rw [check, check]
      rcases same.items_or with ⟨none, none'⟩ | ⟨xs, ys, opened, opened', each⟩
      · simp only [none, none']
        exact samePlace_expect _ _ _
      · simp only [opened, opened']
        exact samePlace_items (each.imp (part item (by simp [children]))) 0
    | record item => exact named.at_root.elim
    | tuple ss =>
      rw [check, check]
      rcases same.items_or with ⟨none, none'⟩ | ⟨xs, ys, opened, opened', each⟩
      · simp only [none, none']
        exact samePlace_expect _ _ _
      · simp only [opened, opened', each.length_eq]
        split
        · exact samePlace_each part each 0
        · exact samePlace_fail _ _
    | either left right =>
      refine (part left (by simp [children]) v w same).then samePlace_accept fun f g _ => ?_
      refine (part right (by simp [children]) v w same).then samePlace_accept fun _ _ _ => ?_
      exact samePlace_bind fun _ _ _ _ => samePlace_bind fun _ _ _ _ => samePlace_fail _ _
    | anyOf ss => exact samePlace_any (fun c child => part c child v w same) [] []
    | both left right | merge tag left right =>
      exact (part left (by simp [children]) v w same).andThen
        (part right (by simp [children]) v w same)
    | refined | custom => exact builtin.at_root.elim
    | struct tag closed fields =>
      have openEnded : closed = false := named.at_root
      subst openEnded
      rw [check, check]
      rcases same.container_or with ⟨none, none'⟩ | ⟨c, d, opened, opened', related⟩
      · simp only [none, none']
        exact samePlace_expect _ _ _
      · simp only [opened, opened']
        refine SamePlace.andThen (samePlace_fields related fun field member => ?_) samePlace_accept
        exact part field.2 (field_child member)

end Shape

namespace Schema

variable {s : Schema} {v w : Value}

theorem accepts_iff_admits {r : Except ShapeError Value} (ending : (s.validate v).result = .ok r) :
    r = .ok v ↔ s.shape.Admits v := by
  have decides := s.shape.check_decides v
  rcases validate_ok_iff.mp ending with ⟨accepted, rfl⟩ | ⟨f, e, rejected, _, rfl⟩
  · exact iff_of_true rfl ((decides _ accepted).mp rfl)
  · refine iff_of_false (by simp) fun admits => ?_
    cases (decides _ rejected).mpr admits

theorem validate_error {e : ShapeError} (ending : (s.validate v).result = .ok (.error e)) :
    ∃ f, s.shape.RejectsAs v f ∧ e.path = f.path := by
  rcases validate_ok_iff.mp ending with ⟨_, impossible⟩ | ⟨f, g, rejected, shown, same⟩
  · cases impossible
  · cases same
    exact ⟨f, rejected, (Failure.toError_ok_iff.mp shown).2.1⟩

end Schema

/-- Where two validations come to a result, the order of entries does not decide which it is,
    and where nothing goes by the order of entries it does not decide the place of a failure
    either. What can stop one of them is known, and where nothing can, the one accepts exactly
    when the other does. -/
theorem acceptance_ignores_order (s : Schema) (builtin : s.shape.Every Shape.Builtin) {v w : Value}
    (acyclic : v.Acyclic) (distinct : v.Every Value.NodeDistinct) (reordered : v.Reordered w) :
    (∀ r q, (s.validate v).result = .ok r → (s.validate w).result = .ok q →
      (r = .ok v ↔ q = .ok w)) ∧
    (s.shape.Every Shape.ByName → ∀ e f, (s.validate v).result = .ok (.error e) →
      (s.validate w).result = .ok (.error f) → e.path = f.path) ∧
    (v.depth ≤ nestingLimit →
      FaultsIn (s.shape.Stops v) (s.validate v).result ∧
      FaultsIn (s.shape.Stops w) (s.validate w).result) ∧
    (v.depth ≤ nestingLimit → v.Writable → s.shape.NamesReadable →
      ((s.validate v).result = .ok (.ok v) ↔ (s.validate w).result = .ok (.ok w))) := by
  have same : v.Rearranged w := ⟨acyclic, distinct, reordered⟩
  have admits := Shape.admits_iff_of_rearranged builtin same
  have alike : ∀ r q, (s.validate v).result = .ok r → (s.validate w).result = .ok q →
      (r = .ok v ↔ q = .ok w) := fun r q ending ending' =>
    (Schema.accepts_iff_admits ending).trans (admits.trans (Schema.accepts_iff_admits ending').symm)
  have settled : ∀ {x}, x.Acyclic → x.depth ≤ nestingLimit →
      FaultsIn (s.shape.Stops x) (s.validate x).result := fun free fits =>
    Schema.validate_faults (Shape.check_confined_acyclic builtin s.typed free fits)
  refine ⟨alike, ?paths, ?faults, ?accepted⟩
  case paths =>
    intro named e f ending ending'
    obtain ⟨g, rejected, place⟩ := Schema.validate_error ending
    obtain ⟨h, rejected', place'⟩ := Schema.validate_error ending'
    have places := Shape.check_samePlace builtin named same _ _ rejected rejected'
    rw [place, place']
    exact Option.some.inj places
  case faults =>
    intro fits
    have fits' := Nat.le_trans reordered.depth_le fits
    exact ⟨settled acyclic fits, settled same.symm.acyclic fits'⟩
  case accepted =>
    intro fits writable readable
    have fits' := Nat.le_trans reordered.depth_le fits
    have acyclic' := same.symm.acyclic
    have shallow := acyclic.shallow fits
    have shallow' := acyclic'.shallow fits'
    have writable' := reordered.writable writable
    obtain ⟨r, ending⟩ := (settled acyclic fits).returns
      (Shape.not_stops shallow writable readable)
    obtain ⟨q, ending'⟩ := (settled acyclic' fits').returns
      (Shape.not_stops shallow' writable' readable)
    rw [ending, ending', Except.ok.injEq, Except.ok.injEq]
    exact alike r q ending ending'

def ajar : Value :=
  .dict [(.scalar (.text "open"), .scalar (.bool true)),
    (.scalar (.text "locked"), .scalar (.bool false))]

def turnedAjar : Value :=
  .dict [(.scalar (.text "locked"), .scalar (.bool false)),
    (.scalar (.text "open"), .scalar (.bool true))]

def doorway : Schema where
  shape := .struct 0 false [("door", .literal 1 [ajar]), ("behind", .atomic .string)]
  type := .struct 0 [("door", TypeExpr.literalOf 1 [ajar], true), ("behind", .text, true)]
  typed := rfl

def nowhere : Value := .dict [(.scalar (.text "door"), ajar), (.scalar (.text "behind"), .null)]

def turnedNowhere : Value :=
  .dict [(.scalar (.text "behind"), .null), (.scalar (.text "door"), turnedAjar)]

theorem nowhere_reordered : nowhere.Reordered turnedNowhere := by
  have doors : ajar.Reordered turnedAjar := .of_entries
    ⟨_, .swap _ _ [], .cons ⟨rfl, .scalar _⟩ (.cons ⟨rfl, .scalar _⟩ .nil)⟩
  exact .of_entries ⟨_, .swap _ _ [], .cons ⟨rfl, .scalar _⟩ (.cons ⟨rfl, doors⟩ .nil)⟩

theorem every_doorway {p : Shape → Prop} (struct : p doorway.shape)
    (literal : p (.literal 1 [ajar])) (string : p (.atomic .string)) : doorway.shape.Every p :=
  .node struct (List.forall_mem_cons.mpr
    ⟨.leaf literal rfl, List.forall_mem_singleton.mpr (.leaf string rfl)⟩)

theorem every_nowhere {p : Value → Prop} (outer : p nowhere) (inner : p ajar)
    (yes : p (.scalar (.bool true))) (no : p (.scalar (.bool false))) (null : p .null) :
    nowhere.Every p := by
  have doors : ajar.Every p := .node inner (List.forall_mem_cons.mpr
    ⟨.scalar yes, List.forall_mem_singleton.mpr (.scalar no)⟩)
  exact .node outer (List.forall_mem_cons.mpr
    ⟨doors, List.forall_mem_singleton.mpr (.scalar null)⟩)

theorem nowhere_refused_at_one_place :
    ∃ e f, (doorway.validate nowhere).result = .ok (.error e) ∧
      (doorway.validate turnedNowhere).result = .ok (.error f) ∧ e.path = f.path ∧
      ((doorway.validate nowhere).result = .ok (.ok nowhere) ↔
        (doorway.validate turnedNowhere).result = .ok (.ok turnedNowhere)) := by
  have builtin : doorway.shape.Every Shape.Builtin := every_doorway trivial trivial trivial
  have acyclic : nowhere.Acyclic := every_nowhere trivial trivial trivial trivial trivial
  have distinct : nowhere.Every Value.NodeDistinct :=
    every_nowhere (List.pairwise_pair.mpr rfl) (List.pairwise_pair.mpr rfl) trivial trivial trivial
  have writable : nowhere.Writable := by
    refine every_nowhere ?_ ?_ trivial trivial trivial
    all_goals exact List.forall_mem_cons.mpr ⟨trivial, List.forall_mem_singleton.mpr trivial⟩
  have readable : doorway.shape.NamesReadable := by
    refine every_doorway ?_ trivial trivial
    intro field member digits index
    rcases List.mem_pair.mp member with rfl | rfl <;> cases index
  obtain ⟨_, paths, _, accepted⟩ :=
    acceptance_ignores_order doorway builtin acyclic distinct nowhere_reordered
  refine ⟨_, _, rfl, rfl, ?_, accepted (by decide) writable readable⟩
  exact paths (every_doorway rfl trivial trivial) _ _ rfl rfl

def textsOrAny : Schema where
  shape := .either (.record (.atomic .string)) (.struct 0 false [])
  type := .union [.record .text, .struct 0 []]
  typed := rfl

def flaggedFirst (n : Int) : Value :=
  .dict [(.scalar (.text "flag"), .scalar (.bool true)), (.scalar (.text "count"), .int n)]

def countedFirst (n : Int) : Value :=
  .dict [(.scalar (.text "count"), .int n), (.scalar (.text "flag"), .scalar (.bool true))]

theorem every_flaggedFirst {p : Value → Prop} {n : Int} (outer : p (flaggedFirst n))
    (flag : p (.scalar (.bool true))) (count : p (.int n)) : (flaggedFirst n).Every p :=
  .node outer (List.forall_mem_cons.mpr
    ⟨.scalar flag, List.forall_mem_singleton.mpr (.scalar count)⟩)

theorem flaggedFirst_accepted (n : Int) :
    (textsOrAny.validate (flaggedFirst n)).result = .ok (.ok (flaggedFirst n)) :=
  rfl

theorem countedFirst_not_accepted {n : Int} (long : ¬ WritableInteger n) :
    ¬ textsOrAny.shape.Accepts (countedFirst n) := by
  intro accepted
  obtain ⟨_, tried, _⟩ := Run.bind_ok_iff.mp accepted
  obtain ⟨_, _, met⟩ := Run.bind_ok_iff.mp tried
  obtain ⟨_, within, _⟩ := Run.bind_ok_iff.mp met
  obtain ⟨verdict, checked, _⟩ := Run.bind_ok_iff.mp within
  exact Shape.check_string_long long verdict checked

/-- With an integer that is too long to be quoted it depends on the order of entries whether
    the second alternative is tried. -/
theorem order_of_entries_decides :
    ¬ ∀ (s : Schema) (v w : Value), s.shape.Every Shape.Builtin → v.Acyclic →
      v.Every Value.NodeDistinct → v.Reordered w →
        ((s.validate v).result = .ok (.ok v) ↔ (s.validate w).result = .ok (.ok w)) := by
  intro always
  obtain ⟨n, large⟩ : ∃ n, Nat.pow 10 digitLimit ≤ n := ⟨_, Nat.le_refl _⟩
  have builtin : textsOrAny.shape.Every Shape.Builtin := .node trivial (List.forall_mem_cons.mpr
    ⟨.node trivial (List.forall_mem_singleton.mpr (.leaf trivial rfl)),
      List.forall_mem_singleton.mpr (.leaf trivial rfl)⟩)
  have reordered : (flaggedFirst n).Reordered (countedFirst n) := .of_entries
    ⟨_, .swap _ _ [], .cons ⟨rfl, .scalar _⟩ (.cons ⟨rfl, .scalar _⟩ .nil)⟩
  have same := always textsOrAny _ _ builtin (every_flaggedFirst trivial trivial trivial)
    (every_flaggedFirst (List.pairwise_pair.mpr rfl) trivial trivial) reordered
  have accepted := (Schema.validate_accept_iff.mp (same.mp (flaggedFirst_accepted n))).1
  exact countedFirst_not_accepted (not_writable large) accepted

end Conform
