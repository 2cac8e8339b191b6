import Conform.Failure

/-!
What the result of a run says about its steps, and a verdict about its parts.
A run that ends well has ended well at every step. A chain of checks accepts
when all of its links do, and fails as the first link that fails.
-/
namespace Conform

theorem except_bind_ok_iff {ε α β : Type} {x : Except ε α} {next : α → Except ε β} {b : β} :
    (x >>= next) = .ok b ↔ ∃ a, x = .ok a ∧ next a = .ok b := by
  cases x <;> simp [bind, Except.bind]

theorem except_bind_error_iff {ε α β : Type} {x : Except ε α} {next : α → Except ε β} {e : ε} :
    (x >>= next) = .error e ↔ x = .error e ∨ ∃ a, x = .ok a ∧ next a = .error e := by
  cases x <;> simp [bind, Except.bind]

namespace Run

variable {α β : Type}

@[simp] theorem result_pure (a : α) : (pure a : Run α).result = .ok a := rfl

@[simp] theorem result_lift (r : Except Fault α) : (liftM r : Run α).result = r := rfl

theorem bind_ok_iff {r : Run α} {next : α → Run β} {b : β} :
    (r >>= next).result = .ok b ↔ ∃ a, r.result = .ok a ∧ (next a).result = .ok b := by
  change (Run.bind r next).result = .ok b ↔ _
  cases ending : r.result with
  | ok a => simp [Run.bind, ending]
  | error fault => simp [Run.bind, ending]

theorem result_bind {r : Run α} {a : α} (ending : r.result = .ok a) (next : α → Run β) :
    (r >>= next).result = (next a).result := by
  change (Run.bind r next).result = _
  simp only [Run.bind, ending]

theorem bind_stopped {r : Run α} {fault : Fault} (stopped : r.result = .error fault)
    (next : α → Run β) : (r >>= next).result = .error fault := by
  change (Run.bind r next).result = _
  simp only [Run.bind, stopped]

theorem bind_congr {r : Run α} {next other : α → Run β}
    (same : ∀ a, r.result = .ok a → next a = other a) : r >>= next = r >>= other := by
  change Run.bind r next = Run.bind r other
  unfold Run.bind
  cases ending : r.result with
  | error fault => rfl
  | ok a =>
    dsimp only
    rw [same a ending]

theorem bind_pure_self (r : Run α) : r >>= pure = r := by
  obtain ⟨events, result⟩ := r
  cases result with
  | error fault => rfl
  | ok a => exact congrArg (Run.mk · (.ok a)) (List.append_nil events)

theorem bind_bind {γ : Type} (r : Run α) (next : α → Run β) (last : β → Run γ) :
    r >>= next >>= last = r >>= fun a => next a >>= last := by
  change Run.bind (Run.bind r next) last = Run.bind r fun a => Run.bind (next a) last
  unfold Run.bind
  cases r.result with
  | error fault => rfl
  | ok a =>
    dsimp only
    cases (next a).result with
    | error fault => rfl
    | ok b => exact congrArg (Run.mk · _) (List.append_assoc ..)

instance : LawfulMonad Run := LawfulMonad.mk' Run bind_pure_self (fun _ _ => rfl) bind_bind

theorem events_bind (r : Run α) (next : α → Run β) :
    (r >>= next).events = r.events ++ match r.result with
      | .ok a => (next a).events
      | .error _ => [] := by
  change (Run.bind r next).events = _
  unfold Run.bind
  cases r.result with
  | ok a => rfl
  | error fault => exact (List.append_nil _).symm

theorem events_bind_silent (r : Run α) {next : α → Run β} (after : ∀ a, (next a).events = []) :
    (r >>= next).events = r.events := by
  rw [events_bind]
  cases r.result with
  | ok a => exact (congrArg (r.events ++ ·) (after a)).trans (List.append_nil _)
  | error fault => exact List.append_nil _

end Run

namespace Check

variable {r : Run Verdict} {next : Unit → Run Verdict} {segment : Segment} {f : Failure}

@[simp] theorem accept_result : accept.result = .ok .accept := rfl

@[simp] theorem fail_result (reason : Reason) :
    (fail reason).result = .ok (.reject (.of reason)) := rfl

theorem expect_result_iff {what : String} {v : Value} {verdict : Verdict} :
    (expect what v).result = .ok verdict ↔
      ∃ got, Json.describe v = .ok got ∧ verdict = .reject (.of (.expected what got)) := by
  simp only [expect, Run.bind_ok_iff, Run.result_lift, fail_result, Except.ok.injEq]
  constructor
  · rintro ⟨got, shown, same⟩
    exact ⟨got, shown, same.symm⟩
  · rintro ⟨got, shown, same⟩
    exact ⟨got, shown, same.symm⟩

theorem andThen_accept_iff :
    (andThen r next).result = .ok .accept ↔
      r.result = .ok .accept ∧ (next ()).result = .ok .accept := by
  simp only [andThen, Run.bind_ok_iff]
  constructor
  · rintro ⟨verdict, first, rest⟩
    cases verdict with
    | accept => exact ⟨first, rest⟩
    | reject g => cases rest
  · rintro ⟨first, rest⟩
    exact ⟨.accept, first, rest⟩

theorem andThen_reject_iff :
    (andThen r next).result = .ok (.reject f) ↔
      r.result = .ok (.reject f) ∨
        r.result = .ok .accept ∧ (next ()).result = .ok (.reject f) := by
  simp only [andThen, Run.bind_ok_iff]
  constructor
  · rintro ⟨verdict, first, rest⟩
    cases verdict with
    | accept => exact Or.inr ⟨first, rest⟩
    | reject g =>
      cases rest
      exact Or.inl first
  · rintro (first | ⟨first, rest⟩)
    · exact ⟨.reject f, first, rfl⟩
    · exact ⟨.accept, first, rest⟩

theorem inside_accept_iff :
    (inside segment r).result = .ok .accept ↔ r.result = .ok .accept := by
  simp only [inside, Run.bind_ok_iff, Run.result_pure, Except.ok.injEq]
  constructor
  · rintro ⟨verdict, part, same⟩
    cases verdict with
    | accept => exact part
    | reject g => cases same
  · intro part
    exact ⟨.accept, part, rfl⟩

theorem inside_reject_iff :
    (inside segment r).result = .ok (.reject f) ↔
      ∃ g, r.result = .ok (.reject g) ∧ f = g.within segment := by
  simp only [inside, Run.bind_ok_iff, Run.result_pure, Except.ok.injEq]
  constructor
  · rintro ⟨verdict, part, same⟩
    cases verdict with
    | accept => cases same
    | reject g =>
      cases same
      exact ⟨g, part, rfl⟩
  · rintro ⟨g, part, same⟩
    subst same
    exact ⟨.reject g, part, rfl⟩

end Check
end Conform
