import Conform.Proofs.Verdict
import Conform.Shape.Basic
import Mathlib.Data.List.Forall2

/-!
Which part a loop of checks fails at. Every loop stops at the first part that
is rejected, with all parts before it accepted, and adds the segment of that part
alone. Alternatives are all tried, and their texts are kept in order.
-/
namespace Conform.Shape

open Check

def Accepts (s : Shape) (v : Value) : Prop := (s.check v).result = .ok .accept

def RejectsAs (s : Shape) (v : Value) (f : Failure) : Prop := (s.check v).result = .ok (.reject f)

def FailsWithText (v : Value) (s : Shape) (text : String) : Prop :=
  ∃ f, s.RejectsAs v f ∧ f.render = .ok text

theorem check_nullable {base : Shape} {v : Value} (present : v ≠ .null) :
    check (.nullable base) v = check base v := by
  rw [check]
  exact present

theorem exists_of_someEqual {v : Value} {cs : List Value} (decided : someEqual v cs = .ok true) :
    ∃ c ∈ cs, c.kind = v.kind ∧ c.same v = .ok true := by
  induction cs with
  | nil => cases decided
  | cons c cs ih =>
    by_cases kind : c.kind = v.kind
    · cases equal : c.same v with
      | error fault => simp [someEqual, kind, equal, bind, Except.bind] at decided
      | ok b =>
        cases b with
        | true => exact ⟨c, by simp, kind, equal⟩
        | false =>
          simp [someEqual, kind, equal, bind, Except.bind] at decided
          obtain ⟨d, member, found⟩ := ih decided
          exact ⟨d, List.mem_cons_of_mem c member, found⟩
    · simp [someEqual, kind] at decided
      obtain ⟨d, member, found⟩ := ih decided
      exact ⟨d, List.mem_cons_of_mem c member, found⟩

theorem someEqual_false_iff {v : Value} {cs : List Value} :
    someEqual v cs = .ok false ↔ ∀ c ∈ cs, c.kind = v.kind → c.same v = .ok false := by
  induction cs with
  | nil => simp [someEqual]
  | cons c cs ih =>
    by_cases kind : c.kind = v.kind
    · cases equal : c.same v with
      | error fault => simp [someEqual, kind, equal, bind, Except.bind]
      | ok b => cases b <;> simp [someEqual, kind, equal, bind, Except.bind, ih]
    · simp [someEqual, kind, ih]

theorem checkItems_reject {check : Check} {start : Nat} {items : List Value} {f : Failure}
    (rejected : (checkItems check start items).result = .ok (.reject f)) :
    ∃ (i : Nat) (x : Value) (g : Failure), items[i]? = some x ∧
      (∀ j < i, ∀ y, items[j]? = some y → (check y).result = .ok .accept) ∧
      (check x).result = .ok (.reject g) ∧ f = g.within (.index (start + i : Nat)) := by
  induction items generalizing start with
  | nil => cases rejected
  | cons x items ih =>
    rw [checkItems, andThen_reject_iff, inside_reject_iff, inside_accept_iff] at rejected
    rcases rejected with ⟨g, failed, same⟩ | ⟨passed, rest⟩
    · exact ⟨0, x, g, rfl, by omega, failed, same⟩
    · obtain ⟨i, y, g, found, before, failed, same⟩ := ih rest
      refine ⟨i + 1, y, g, by simpa using found, ?_, failed, ?_⟩
      · intro j earlier z member
        cases j with
        | zero =>
          cases member
          exact passed
        | succ j => exact before j (by omega) z (by simpa using member)
      · rw [same]
        congr 2
        omega

theorem checkEach_reject {ss : List Shape} {start : Nat} {items : List Value} {f : Failure}
    (rejected : (checkEach ss start items).result = .ok (.reject f)) :
    ∃ (i : Nat) (s : Shape) (x : Value) (g : Failure), ss[i]? = some s ∧ items[i]? = some x ∧
      (∀ j < i, ∀ t y, ss[j]? = some t → items[j]? = some y → t.Accepts y) ∧
      s.RejectsAs x g ∧ f = g.within (.index (start + i : Nat)) := by
  induction ss generalizing start items with
  | nil => simp [checkEach] at rejected
  | cons s ss ih =>
    cases items with
    | nil => simp [checkEach] at rejected
    | cons x items =>
      rw [checkEach, andThen_reject_iff, inside_reject_iff, inside_accept_iff] at rejected
      rcases rejected with ⟨g, failed, same⟩ | ⟨passed, rest⟩
      · exact ⟨0, s, x, g, rfl, rfl, by omega, failed, same⟩
      · obtain ⟨i, t, y, g, shape, found, before, failed, same⟩ := ih rest
        refine ⟨i + 1, t, y, g, by simpa using shape, by simpa using found, ?_, failed, ?_⟩
        · intro j earlier u z place member
          cases j with
          | zero =>
            cases place
            cases member
            exact passed
          | succ j => exact before j (by omega) u z (by simpa using place) (by simpa using member)
        · rw [same]
          congr 2
          omega

theorem checkLabelled_reject {check : Check} {parts : List (Except Fault Segment × Value)}
    {f : Failure} (rejected : (checkLabelled check parts).result = .ok (.reject f)) :
    ∃ (i : Nat) (segment : Segment) (x : Value) (g : Failure),
      parts[i]? = some (.ok segment, x) ∧
      (∀ j < i, ∀ part, parts[j]? = some part → (check part.2).result = .ok .accept) ∧
      (check x).result = .ok (.reject g) ∧ f = g.within segment := by
  induction parts with
  | nil => cases rejected
  | cons part parts ih =>
    obtain ⟨label, x⟩ := part
    rw [checkLabelled, Run.bind_ok_iff] at rejected
    obtain ⟨segment, named, rest⟩ := rejected
    rw [Run.result_lift] at named
    subst named
    rw [andThen_reject_iff, inside_reject_iff, inside_accept_iff] at rest
    rcases rest with ⟨g, failed, same⟩ | ⟨passed, rest⟩
    · exact ⟨0, segment, x, g, rfl, by omega, failed, same⟩
    · obtain ⟨i, found, y, g, at_i, before, failed, same⟩ := ih rest
      refine ⟨i + 1, found, y, g, by simpa using at_i, ?_, failed, same⟩
      intro j earlier part member
      cases j with
      | zero =>
        cases member
        exact passed
      | succ j => exact before j (by omega) part (by simpa using member)

theorem checkDeclared_reject {names : List String} {parts : List (Except Fault Segment × Value)}
    {f : Failure} (rejected : (checkDeclared names parts).result = .ok (.reject f)) :
    ∃ (i : Nat) (segment : Segment) (x : Value), parts[i]? = some (.ok segment, x) ∧
      (∀ j < i, ∀ label y, parts[j]? = some (label, y) →
        ∃ s, label = .ok s ∧ names.any s.isName) ∧
      ¬ names.any segment.isName ∧ f = (Failure.of .unexpectedField).within segment := by
  induction parts with
  | nil => cases rejected
  | cons part parts ih =>
    obtain ⟨label, x⟩ := part
    rw [checkDeclared, Run.bind_ok_iff] at rejected
    obtain ⟨segment, named, rest⟩ := rejected
    rw [Run.result_lift] at named
    subst named
    by_cases declared : names.any segment.isName
    · rw [if_pos declared] at rest
      obtain ⟨i, found, y, at_i, before, undeclared, same⟩ := ih rest
      refine ⟨i + 1, found, y, by simpa using at_i, ?_, undeclared, same⟩
      intro j earlier label z member
      cases j with
      | zero =>
        cases member
        exact ⟨segment, rfl, declared⟩
      | succ j => exact before j (by omega) label z (by simpa using member)
    · rw [if_neg declared, inside_reject_iff] at rest
      obtain ⟨g, failed, same⟩ := rest
      cases failed
      exact ⟨0, segment, x, rfl, by omega, declared, same⟩

theorem checkFields_reject {fields : List (String × Shape)} {c : Container} {f : Failure}
    (rejected : (checkFields fields c).result = .ok (.reject f)) :
    ∃ (i : Nat) (name : String) (s : Shape) (x : Value) (g : Failure),
      fields[i]? = some (name, s) ∧ c.lookup name = .ok x ∧
      (∀ j < i, ∀ field, fields[j]? = some field →
        ∃ y, c.lookup field.1 = .ok y ∧ field.2.Accepts y) ∧
      s.RejectsAs x g ∧ f = g.within (.name name) := by
  induction fields with
  | nil => simp [checkFields] at rejected
  | cons field fields ih =>
    obtain ⟨name, s⟩ := field
    rw [checkFields, Run.bind_ok_iff] at rejected
    obtain ⟨x, looked, rest⟩ := rejected
    rw [Run.result_lift] at looked
    rw [andThen_reject_iff, inside_reject_iff, inside_accept_iff] at rest
    rcases rest with ⟨g, failed, same⟩ | ⟨passed, rest⟩
    · exact ⟨0, name, s, x, g, rfl, looked, by omega, failed, same⟩
    · obtain ⟨i, other, t, y, g, field, read, before, failed, same⟩ := ih rest
      refine ⟨i + 1, other, t, y, g, by simpa using field, read, ?_, failed, same⟩
      intro j earlier field member
      cases j with
      | zero =>
        cases member
        exact ⟨x, looked, passed⟩
      | succ j => exact before j (by omega) field (by simpa using member)

theorem checkFields_accept_iff {fields : List (String × Shape)} {c : Container} :
    (checkFields fields c).result = .ok .accept ↔
      ∀ field ∈ fields, ∃ x, c.lookup field.1 = .ok x ∧ field.2.Accepts x := by
  induction fields with
  | nil => simp [checkFields]
  | cons field fields ih =>
    obtain ⟨name, s⟩ := field
    rw [checkFields, Run.bind_ok_iff, List.forall_mem_cons, ← ih]
    constructor
    · rintro ⟨x, looked, rest⟩
      rw [andThen_accept_iff, inside_accept_iff] at rest
      exact ⟨⟨x, looked, rest.1⟩, rest.2⟩
    · rintro ⟨⟨x, looked, passed⟩, rest⟩
      refine ⟨x, looked, ?_⟩
      rw [andThen_accept_iff, inside_accept_iff]
      exact ⟨passed, rest⟩

theorem checkDeclared_accept_iff {names : List String}
    {parts : List (Except Fault Segment × Value)} :
    (checkDeclared names parts).result = .ok .accept ↔
      ∀ part ∈ parts, ∃ segment, part.1 = .ok segment ∧ names.any segment.isName := by
  induction parts with
  | nil => simp [checkDeclared]
  | cons part parts ih =>
    obtain ⟨label, x⟩ := part
    rw [checkDeclared, Run.bind_ok_iff, List.forall_mem_cons, ← ih]
    constructor
    · rintro ⟨segment, named, rest⟩
      by_cases declared : names.any segment.isName
      · rw [if_pos declared] at rest
        exact ⟨⟨segment, named, declared⟩, rest⟩
      · rw [if_neg declared, inside_accept_iff] at rest
        cases rest
    · rintro ⟨⟨segment, named, declared⟩, rest⟩
      refine ⟨segment, named, ?_⟩
      rw [if_pos declared]
      exact rest

theorem checkAny_reject_iff {ss : List Shape} {rendered : List String} {v : Value} {f : Failure} :
    (checkAny ss rendered v).result = .ok (.reject f) ↔
      ∃ texts, List.Forall₂ (FailsWithText v) ss texts ∧
        f = .of (.noneOf (rendered ++ texts)) := by
  induction ss generalizing rendered with
  | nil =>
    simp only [checkAny, fail_result, Except.ok.injEq, Verdict.reject.injEq,
      List.forall₂_nil_left_iff, exists_eq_left, List.append_nil]
    exact eq_comm
  | cons s ss ih =>
    rw [checkAny, Run.bind_ok_iff]
    constructor
    · rintro ⟨verdict, tried, rest⟩
      cases verdict with
      | accept => cases rest
      | reject g =>
        obtain ⟨text, shown, rest⟩ := Run.bind_ok_iff.mp rest
        obtain ⟨texts, others, same⟩ := ih.mp rest
        exact ⟨text :: texts, .cons ⟨g, tried, shown⟩ others, by simp [same]⟩
    · rintro ⟨texts, all, same⟩
      cases all with
      | cons first others =>
        obtain ⟨g, failed, shown⟩ := first
        refine ⟨.reject g, failed, ?_⟩
        rw [Run.bind_ok_iff]
        exact ⟨_, shown, ih.mpr ⟨_, others, by simp [same]⟩⟩

end Conform.Shape
