import Conform.Proofs.FirstFailure
import Conform.Schema.Validation

/-!
The operations on a schema in terms of the verdict of its shape.
-/
namespace Conform

theorem Failure.toError_ok_iff {f : Failure} {e : ShapeError} :
    f.toError = .ok e ↔ f.render = .ok e.message ∧ e.path = f.path ∧ e.reason = f.reason.text := by
  rw [toError, except_bind_ok_iff]
  constructor
  · rintro ⟨message, shown, same⟩
    cases same
    exact ⟨shown, rfl, rfl⟩
  · rintro ⟨shown, path, reason⟩
    obtain ⟨message, _, _⟩ := e
    subst path
    subst reason
    exact ⟨message, shown, rfl⟩

namespace Schema

variable {s : Schema} {v : Value}

theorem validateBase_ok_iff {r : Except Failure Value} :
    (s.validateBase v).result = .ok r ↔
      s.shape.Accepts v ∧ r = .ok v ∨ ∃ f, s.shape.RejectsAs v f ∧ r = .error f := by
  rw [validateBase, Run.bind_ok_iff]
  constructor
  · rintro ⟨verdict, checked, rest⟩
    cases verdict with
    | accept =>
      cases rest
      exact Or.inl ⟨checked, rfl⟩
    | reject f =>
      cases rest
      exact Or.inr ⟨f, checked, rfl⟩
  · rintro (⟨accepted, same⟩ | ⟨f, rejected, same⟩)
    · exact ⟨.accept, accepted, same ▸ rfl⟩
    · exact ⟨.reject f, rejected, same ▸ rfl⟩

theorem validate_ok_iff {r : Except ShapeError Value} :
    (s.validate v).result = .ok r ↔
      s.shape.Accepts v ∧ r = .ok v ∨
        ∃ f e, s.shape.RejectsAs v f ∧ f.toError = .ok e ∧ r = .error e := by
  rw [validate, Run.bind_ok_iff]
  constructor
  · rintro ⟨result, checked, rest⟩
    rcases validateBase_ok_iff.mp checked with ⟨accepted, same⟩ | ⟨f, rejected, same⟩
    · subst same
      cases rest
      exact Or.inl ⟨accepted, rfl⟩
    · subst same
      obtain ⟨e, shown, rest⟩ := Run.bind_ok_iff.mp rest
      cases rest
      exact Or.inr ⟨f, e, rejected, shown, rfl⟩
  · rintro (⟨accepted, same⟩ | ⟨f, e, rejected, shown, same⟩)
    · subst same
      exact ⟨.ok v, validateBase_ok_iff.mpr (Or.inl ⟨accepted, rfl⟩), rfl⟩
    · subst same
      refine ⟨.error f, validateBase_ok_iff.mpr (Or.inr ⟨f, rejected, rfl⟩), ?_⟩
      rw [Run.bind_ok_iff]
      exact ⟨e, shown, rfl⟩

theorem validate_congr {t : Schema} (same : s.shape.check v = t.shape.check v) :
    s.validate v = t.validate v := by
  rw [validate, validate, validateBase, validateBase, same]

theorem validate_accept_iff {w : Value} :
    (s.validate v).result = .ok (.ok w) ↔ s.shape.Accepts v ∧ w = v := by
  rw [validate_ok_iff]
  constructor
  · rintro (⟨accepted, same⟩ | ⟨_, _, _, _, impossible⟩)
    · cases same
      exact ⟨accepted, rfl⟩
    · cases impossible
  · rintro ⟨accepted, rfl⟩
    exact Or.inl ⟨accepted, rfl⟩

theorem result_validateBase (s : Schema) (v : Value) :
    (s.validateBase v).result = match (s.shape.check v).result with
      | .ok .accept => .ok (.ok v)
      | .ok (.reject f) => .ok (.error f)
      | .error fault => .error fault := by
  unfold validateBase
  obtain ⟨events, result⟩ := s.shape.check v
  cases result with
  | error fault => rfl
  | ok verdict => cases verdict <;> rfl

theorem result_validate (s : Schema) (v : Value) :
    (s.validate v).result = match (s.shape.check v).result with
      | .ok .accept => .ok (.ok v)
      | .ok (.reject f) => f.toError.map .error
      | .error fault => .error fault := by
  unfold validate validateBase
  obtain ⟨events, result⟩ := s.shape.check v
  cases result with
  | error fault => rfl
  | ok verdict =>
    cases verdict with
    | accept => rfl
    | reject f =>
      change (liftM f.toError >>= _ : Run _).result = f.toError.map Except.error
      cases f.toError <;> rfl

theorem events_validate (s : Schema) (v : Value) :
    (s.validate v).events = (s.shape.check v).events := by
  have base : (s.validateBase v).events = (s.shape.check v).events := by
    refine Run.events_bind_silent (s.shape.check v) fun verdict => ?_
    cases verdict <;> rfl
  refine (Run.events_bind_silent (s.validateBase v) fun result => ?_).trans base
  cases result with
  | ok w => rfl
  | error failure => exact Run.events_bind_silent (liftM failure.toError) fun _ => rfl

theorem guard_verdict {onFailure : OnFailure} {passed : Bool} {seen : List ShapeError}
    (ending : (s.guard v onFailure).result = .ok (passed, seen)) :
    s.shape.Accepts v ∧ passed = true ∨ ∃ f, s.shape.RejectsAs v f ∧ passed = false := by
  obtain ⟨result, checked, rest⟩ := Run.bind_ok_iff.mp ending
  rcases validateBase_ok_iff.mp checked with ⟨accepted, same⟩ | ⟨f, rejected, same⟩
  · subst same
    cases rest
    exact Or.inl ⟨accepted, rfl⟩
  · subst same
    refine Or.inr ⟨f, rejected, ?_⟩
    cases onFailure with
    | ignore =>
      cases rest
      rfl
    | collect =>
      obtain ⟨e, _, rest⟩ := Run.bind_ok_iff.mp rest
      cases rest
      rfl
    | throw =>
      obtain ⟨e, _, rest⟩ := Run.bind_ok_iff.mp rest
      cases rest

/-- Where validation comes to a result, so does the guard, or it throws the error. -/
theorem guard_of_validate {r : Except ShapeError Value} (valid : (s.validate v).result = .ok r)
    (onFailure : OnFailure) :
    (s.guard v onFailure).result = match r, onFailure with
      | .ok _, _ => .ok (true, [])
      | .error _, .ignore => .ok (false, [])
      | .error e, .collect => .ok (false, [e])
      | .error e, .throw => .error (.thrown .shape e.message) := by
  rcases validate_ok_iff.mp valid with ⟨accepted, rfl⟩ | ⟨f, e, rejected, shown, rfl⟩
  · exact Run.result_bind (validateBase_ok_iff.mpr (Or.inl ⟨accepted, rfl⟩)) _
  · rw [guard, Run.result_bind (validateBase_ok_iff.mpr (Or.inr ⟨f, rejected, rfl⟩))]
    cases onFailure with
    | ignore => rfl
    | collect | throw => exact Run.result_bind ((Run.result_lift _).trans shown) _

end Schema
end Conform
