import Conform.Proofs.Lookup
import Conform.Proofs.Nesting
import Conform.Proofs.Validation

/-!
What a shape means: the values it admits, said by recursion on the shape with
no order of checking, no paths and no texts. Where a check comes to a verdict at
all it accepts exactly these values, and validation hands back the value it was
given.
-/
namespace Conform

def Value.Matches (candidate v : Value) : Prop :=
  candidate.kind = v.kind ∧ candidate.same v = .ok true

namespace Shape

mutual

def Admits : Shape → Value → Prop
  | .atomic k, v => v.kind = k.kind
  | .literal _ candidates, v => ∃ c ∈ candidates, c.Matches v
  | .optional base, v => v = .undefined ∨ Admits base v
  | .nullable base, v => v = .null ∨ Admits base v
  | .array item, v => ∃ items, v.items? = some items ∧ ∀ x ∈ items, Admits item x
  | .record item, v => ∃ c, v.container? = some c ∧ ∀ x ∈ c.values, Admits item x
  | .tuple ss, v => ∃ items, v.items? = some items ∧ AdmitsEach ss items
  | .either left right, v => Admits left v ∨ Admits right v
  | .anyOf alternatives, v => AdmitsSome alternatives v
  | .both left right, v => Admits left v ∧ Admits right v
  | .merge _ left right, v => Admits left v ∧ Admits right v
  | .refined base refine, v => Admits base v ∧ (refine v).result = .ok .accept
  | .custom check _, v => (check v).result = .ok .accept
  | .struct _ closed fields, v => ∃ c, v.container? = some c ∧ AdmitsFields fields c ∧
      (closed = true → ∀ part ∈ c.labelled, ∃ segment, part.1 = .ok segment ∧
        ∃ field ∈ fields, segment.isName field.1)
termination_by structural s => s

def AdmitsEach : List Shape → List Value → Prop
  | [], [] => True
  | s :: ss, v :: vs => Admits s v ∧ AdmitsEach ss vs
  | _, _ => False
termination_by structural ss => ss

def AdmitsSome : List Shape → Value → Prop
  | [], _ => False
  | s :: ss, v => Admits s v ∨ AdmitsSome ss v
termination_by structural ss => ss

/-- What is stored under each declared name is admitted, an absent value as `undefined`. -/
def AdmitsFields : List (String × Shape) → Container → Prop
  | [], _ => True
  | (name, s) :: fields, c => (∃ x, c.Holds name x ∧ Admits s x) ∧ AdmitsFields fields c
termination_by structural fields => fields

end

theorem admitsEach_iff {ss : List Shape} {vs : List Value} :
    AdmitsEach ss vs ↔ List.Forall₂ Admits ss vs := by
  induction ss generalizing vs with
  | nil => cases vs <;> simp [AdmitsEach]
  | cons s ss ih => cases vs <;> simp [AdmitsEach, ih]

theorem admitsSome_iff {ss : List Shape} {v : Value} :
    AdmitsSome ss v ↔ ∃ s ∈ ss, Admits s v := by
  induction ss with
  | nil => simp [AdmitsSome]
  | cons s ss ih => simp [AdmitsSome, ih]

theorem admitsFields_iff {fields : List (String × Shape)} {c : Container} :
    AdmitsFields fields c ↔ ∀ field ∈ fields, ∃ x, c.Holds field.1 x ∧ Admits field.2 x := by
  induction fields with
  | nil => simp [AdmitsFields]
  | cons field fields ih => simp [AdmitsFields, ih]

end Shape

namespace Check

/-- If a run comes to a verdict, it accepts exactly when the proposition holds. -/
def Decides (r : Run Verdict) (p : Prop) : Prop :=
  ∀ verdict, r.result = .ok verdict → (verdict = .accept ↔ p)

variable {r : Run Verdict} {p q : Prop}

theorem Decides.congr (decides : Decides r p) (same : p ↔ q) : Decides r q :=
  fun verdict ending => (decides verdict ending).trans same

theorem decides_own_acceptance (r : Run Verdict) : Decides r (r.result = .ok .accept) := by
  intro verdict ending
  simp [ending]

theorem accept_decides : Decides accept True := by
  intro verdict ending
  cases ending
  simp

theorem fail_decides (reason : Reason) : Decides (fail reason) False := by
  intro verdict ending
  cases ending
  simp

theorem expect_decides (what : String) (v : Value) : Decides (expect what v) False := by
  intro verdict ending
  obtain ⟨got, _, same⟩ := expect_result_iff.mp ending
  simp [same]

theorem andThen_decides {next : Unit → Run Verdict} (first : Decides r p)
    (rest : Decides (next ()) q) : Decides (andThen r next) (p ∧ q) := by
  intro verdict ending
  cases verdict with
  | accept =>
    obtain ⟨passed, others⟩ := andThen_accept_iff.mp ending
    simpa using ⟨(first _ passed).mp rfl, (rest _ others).mp rfl⟩
  | reject f =>
    simp only [reduceCtorEq, false_iff, not_and]
    intro holds
    rcases andThen_reject_iff.mp ending with failed | ⟨_, failed⟩
    · cases (first _ failed).mpr holds
    · intro also
      cases (rest _ failed).mpr also

theorem inside_decides {segment : Segment} (part : Decides r p) :
    Decides (inside segment r) p := by
  intro verdict ending
  cases verdict with
  | accept => exact part _ (inside_accept_iff.mp ending)
  | reject f =>
    obtain ⟨g, failed, _⟩ := inside_reject_iff.mp ending
    simpa using part _ failed

theorem bind_decides {α : Type} {x : Except Fault α} {next : α → Run Verdict}
    (rest : ∀ a, x = .ok a → Decides (next a) p) : Decides (liftM x >>= next) p := by
  intro verdict ending
  obtain ⟨a, found, ends⟩ := Run.bind_ok_iff.mp ending
  exact rest a found verdict ends

theorem alternative_decides {next : Verdict → Run Verdict} (first : Decides r p)
    (accepted : Decides (next .accept) True) (rejected : ∀ f, Decides (next (.reject f)) q) :
    Decides (r >>= next) (p ∨ q) := by
  intro verdict ending
  obtain ⟨earlier, tried, rest⟩ := Run.bind_ok_iff.mp ending
  cases earlier with
  | accept =>
    have holds := (first _ tried).mp rfl
    simpa [holds] using accepted verdict rest
  | reject f =>
    have excluded : ¬ p := by
      intro holds
      cases (first _ tried).mpr holds
    simpa [excluded] using rejected f verdict rest

end Check

namespace Shape

open Check

theorem someEqual_decides {v : Value} {candidates : List Value} {found : Bool}
    (decided : someEqual v candidates = .ok found) :
    found = true ↔ ∃ c ∈ candidates, c.Matches v := by
  cases found with
  | true => exact iff_of_true rfl (exists_of_someEqual decided)
  | false =>
    refine iff_of_false Bool.false_ne_true ?_
    rintro ⟨c, member, kind, equal⟩
    rw [someEqual_false_iff.mp decided c member kind] at equal
    cases equal

theorem checkLiteral_decides (candidates : List Value) (v : Value) :
    Decides (checkLiteral candidates v) (∃ c ∈ candidates, c.Matches v) := by
  apply bind_decides
  intro found decided
  have matched := someEqual_decides decided
  cases found with
  | true => exact accept_decides.congr (iff_of_true trivial (matched.mp rfl))
  | false =>
    have none := mt matched.mpr Bool.false_ne_true
    refine (bind_decides fun what _ => ?_).congr (p := False) (by simp [none])
    exact expect_decides what v

theorem checkItems_decides {check : Check} {P : Value → Prop}
    (each : ∀ x, Decides (check x) (P x)) (start : Nat) (items : List Value) :
    Decides (checkItems check start items) (∀ x ∈ items, P x) := by
  induction items generalizing start with
  | nil => exact accept_decides.congr (by simp)
  | cons x items ih =>
    exact (andThen_decides (inside_decides (each x)) (ih (start + 1))).congr (by simp)

theorem checkLabelled_decides {check : Check} {P : Value → Prop}
    (each : ∀ x, Decides (check x) (P x)) (parts : List (Except Fault Segment × Value)) :
    Decides (checkLabelled check parts) (∀ x ∈ parts.map (·.2), P x) := by
  induction parts with
  | nil => exact accept_decides.congr (by simp)
  | cons part parts ih =>
    apply bind_decides
    intro segment _
    exact (andThen_decides (inside_decides (each part.2)) ih).congr (by simp)

theorem checkDeclared_decides (names : List String) (parts : List (Except Fault Segment × Value)) :
    Decides (checkDeclared names parts)
      (∀ part ∈ parts, ∃ segment, part.1 = .ok segment ∧ names.any segment.isName) := by
  induction parts with
  | nil => exact accept_decides.congr (by simp)
  | cons part parts ih =>
    apply bind_decides
    intro segment named
    by_cases declared : names.any segment.isName
    · rw [if_pos declared]
      exact ih.congr (by simp_all)
    · rw [if_neg declared]
      refine (inside_decides (fail_decides _)).congr ?_
      simp_all

theorem checkEach_decides {ss : List Shape} (each : ∀ s ∈ ss, ∀ v, Decides (s.check v) (s.Admits v))
    (start : Nat) {items : List Value} (length : items.length = ss.length) :
    Decides (checkEach ss start items) (AdmitsEach ss items) := by
  induction ss generalizing start items with
  | nil =>
    cases List.length_eq_zero_iff.mp length
    exact accept_decides.congr (by simp [AdmitsEach])
  | cons s ss ih =>
    cases items with
    | nil => cases length
    | cons x items =>
      have rest := ih (fun t member => each t (List.mem_cons_of_mem s member)) (start + 1)
        (Nat.succ.inj length)
      exact andThen_decides (inside_decides (each s (by simp) x)) rest

theorem checkAny_decides {ss : List Shape} {v : Value}
    (each : ∀ s ∈ ss, Decides (s.check v) (s.Admits v)) (rendered : List String) :
    Decides (checkAny ss rendered v) (AdmitsSome ss v) := by
  induction ss generalizing rendered with
  | nil => exact fail_decides _
  | cons s ss ih =>
    refine alternative_decides (each s (by simp)) accept_decides fun f => ?_
    exact bind_decides fun text _ => ih (fun t member => each t (List.mem_cons_of_mem s member)) _

theorem checkFields_decides {fields : List (String × Shape)} (c : Container)
    (each : ∀ field ∈ fields, ∀ v, Decides (field.2.check v) (field.2.Admits v)) :
    Decides (checkFields fields c) (AdmitsFields fields c) := by
  induction fields with
  | nil => exact accept_decides
  | cons field fields ih =>
    apply bind_decides
    intro x looked
    have held := Container.holds_of_lookup looked
    have rest := ih fun other member => each other (List.mem_cons_of_mem field member)
    refine (andThen_decides (inside_decides (each field (by simp) x)) rest).congr ?_
    refine and_congr_left' ⟨fun admitted => ⟨x, held, admitted⟩, ?_⟩
    rintro ⟨y, other, admitted⟩
    exact Container.holds_unique other held ▸ admitted

theorem Container.labelled_values (c : Container) : c.labelled.map (·.2) = c.values := by
  cases c with
  | map entries => simp [Container.labelled, Container.values]
  | seq items =>
    apply List.ext_getElem?
    intro i
    simp [Container.labelled, Container.values, Option.map_map, Function.comp_def]

theorem check_decides (s : Shape) (v : Value) : Decides (s.check v) (s.Admits v) := by
  induction s using treeInduction generalizing v with
  | atomic k =>
    rw [check, Admits]
    split
    · rename_i same
      exact accept_decides.congr (by simp [same])
    · rename_i other
      exact (expect_decides k.name v).congr (by simp [other])
  | literal tag candidates => exact checkLiteral_decides candidates v
  | optional base ih =>
    rw [check, Admits]
    split
    · rename_i absent
      exact accept_decides.congr (by simp [Value.isUndefined_iff.mp absent])
    · rename_i present
      exact (ih v).congr (by simp [mt Value.isUndefined_iff.mpr present])
  | nullable base ih =>
    by_cases null : v = .null
    · subst null
      exact accept_decides.congr (by simp [Admits])
    · rw [check_nullable null, Admits]
      exact (ih v).congr (by simp [null])
  | array item ih =>
    rw [check, Admits]
    split
    · rename_i items opened
      exact (checkItems_decides ih 0 items).congr (by simp [opened])
    · rename_i other
      exact (expect_decides "array" v).congr (by simp [other])
  | record item ih =>
    rw [check, Admits]
    split
    · rename_i c opened
      refine (checkLabelled_decides ih c.labelled).congr ?_
      simp only [opened, Container.labelled_values, Option.some.injEq, exists_eq_left']
    · rename_i other
      exact (expect_decides "object" v).congr (by simp [other])
  | tuple ss ih =>
    rw [check, Admits]
    split
    · rename_i items opened
      simp only [opened, Option.some.injEq, exists_eq_left']
      split
      · rename_i length
        exact checkEach_decides ih 0 length
      · rename_i differs
        refine (fail_decides _).congr (iff_of_false not_false fun each => differs ?_)
        exact (admitsEach_iff.mp each).length_eq.symm
    · rename_i other
      exact (expect_decides "tuple" v).congr (by simp [other])
  | either left right ihLeft ihRight =>
    refine alternative_decides (ihLeft v) accept_decides fun f => ?_
    refine Decides.congr (p := right.Admits v ∨ False) ?_ (by simp)
    refine alternative_decides (ihRight v) accept_decides fun g => ?_
    exact bind_decides fun first _ => bind_decides fun second _ => fail_decides _
  | anyOf alternatives ih => exact checkAny_decides (fun s member => ih s member v) []
  | both left right ihLeft ihRight => exact andThen_decides (ihLeft v) (ihRight v)
  | merge tag left right ihLeft ihRight => exact andThen_decides (ihLeft v) (ihRight v)
  | refined base refine ih => exact andThen_decides (ih v) (decides_own_acceptance (refine v))
  | custom own type => exact decides_own_acceptance (own v)
  | struct tag closed fields ih =>
    rw [check, Admits]
    split
    · rename_i c opened
      simp only [opened, Option.some.injEq, exists_eq_left']
      have fieldsDecide := checkFields_decides c ih
      cases closed with
      | false => exact (andThen_decides fieldsDecide accept_decides).congr (by simp)
      | true =>
        have declared := checkDeclared_decides (fields.map (·.1)) c.labelled
        exact (andThen_decides fieldsDecide declared).congr (and_congr_right' (by simp))
    · rename_i other
      exact (expect_decides "struct" v).congr (by simp [other])

end Shape

/-- Validation accepts the values that the shape admits and hands back the value itself, and
    so do the form that keeps the failure and the guard, whatever is done with failures. These
    two come to a result wherever validation does, unless the guard is to throw the failure. -/
theorem validate_accepts_iff_admits (s : Schema) (v : Value) :
    (∀ r, (s.validate v).result = .ok r →
      ((∃ w, r = .ok w) ↔ s.shape.Admits v) ∧ ∀ w, r = .ok w → w = v) ∧
    (∀ r, (s.validateBase v).result = .ok r →
      ((∃ w, r = .ok w) ↔ s.shape.Admits v) ∧ ∀ w, r = .ok w → w = v) ∧
    (∀ onFailure passed seen, (s.guard v onFailure).result = .ok (passed, seen) →
      (passed = true ↔ s.shape.Admits v)) ∧
    ∀ r, (s.validate v).result = .ok r →
      (∃ q, (s.validateBase v).result = .ok q) ∧
      ∀ onFailure, s.shape.Admits v ∨ onFailure ≠ .throw →
        ∃ passed seen, (s.guard v onFailure).result = .ok (passed, seen) := by
  have decides := Shape.check_decides s.shape v
  refine ⟨fun r ending => ?_, fun r ending => ?_, fun onFailure passed seen ending => ?_,
    fun r ending => ⟨?_, fun onFailure quiet => ?_⟩⟩
  · rcases Schema.validate_ok_iff.mp ending with ⟨accepted, same⟩ | ⟨f, e, rejected, _, same⟩
    · simp [same, (decides _ accepted).mp rfl]
    · simpa [same] using decides _ rejected
  · rcases Schema.validateBase_ok_iff.mp ending with ⟨accepted, same⟩ | ⟨f, rejected, same⟩
    · simp [same, (decides _ accepted).mp rfl]
    · simpa [same] using decides _ rejected
  · rcases Schema.guard_verdict ending with ⟨accepted, same⟩ | ⟨f, rejected, same⟩
    · simp [same, (decides _ accepted).mp rfl]
    · simpa [same] using decides _ rejected
  · rcases Schema.validate_ok_iff.mp ending with ⟨accepted, _⟩ | ⟨f, _, rejected, _, _⟩
    · exact ⟨_, Schema.validateBase_ok_iff.mpr (Or.inl ⟨accepted, rfl⟩)⟩
    · exact ⟨_, Schema.validateBase_ok_iff.mpr (Or.inr ⟨f, rejected, rfl⟩)⟩
  · have guarded := Schema.guard_of_validate ending onFailure
    rcases Schema.validate_ok_iff.mp ending with ⟨_, rfl⟩ | ⟨f, e, rejected, _, rfl⟩
    · exact ⟨_, _, guarded⟩
    · have loud := quiet.resolve_left fun admits => by cases (decides _ rejected).mpr admits
      cases onFailure with
      | ignore | collect => exact ⟨_, _, guarded⟩
      | throw => exact absurd rfl loud

def oneOrTwo : Schema where
  shape := .struct 0 true [("0", .atomic .string), ("1", .optional (.atomic .number))]
  type := .struct 0 [("0", .text, true), ("1", .union [.int, .float], false)]
  typed := rfl

theorem oneOrTwo_admits_one :
    (oneOrTwo.validate (.list [.text "a"])).result = .ok (.ok (.list [.text "a"])) ∧
      oneOrTwo.shape.Admits (.list [.text "a"]) ∧
      ∃ passed seen, (oneOrTwo.guard (.list [.text "a"]) .throw).result = .ok (passed, seen) := by
  have valid : (oneOrTwo.validate (.list [.text "a"])).result = .ok (.ok (.list [.text "a"])) := rfl
  have admits := ((validate_accepts_iff_admits oneOrTwo _).1 _ valid).1.mp ⟨_, rfl⟩
  have returns := ((validate_accepts_iff_admits oneOrTwo _).2.2.2 _ valid).2
  exact ⟨valid, admits, returns .throw (Or.inl admits)⟩

end Conform
