import Conform.Proofs.Fidelity
import Conform.Proofs.OneLine
import Conform.Proofs.Order
import Conform.Proofs.Trace
import Conform.Proofs.Unions

/-!
Unions against chains of alternatives. Both try their alternatives in order and render the
failures, so they differ only in how the texts are put together. But a chain looks at two
alternatives before it renders a failure, and a union at one. Where the first alternative cannot
say why it turns a value down, the union is stopped and the chain may still accept.
-/
namespace Conform

namespace Shape

open Check

def further (next : List String → Run (Option (List String))) :
    Option (List String) → Run (Option (List String))
  | none => pure none
  | some texts => next texts

/-- Tries alternatives in order until one accepts. Otherwise there is a text for each, behind
    those already there. -/
def attempt : List Shape → List String → Value → Run (Option (List String))
  | [], texts, _ => pure (some texts)
  | s :: ss, texts, v => do
    match ← s.check v with
    | .accept => pure none
    | .reject f => do
      let text ← f.render
      attempt ss (texts ++ [text]) v

def conclude (reason : List String → Reason) : Option (List String) → Run Verdict
  | none => accept
  | some texts => fail (reason texts)

theorem checkAny_eq_attempt (ss : List Shape) (texts : List String) (v : Value) :
    checkAny ss texts v = attempt ss texts v >>= conclude .noneOf := by
  induction ss generalizing texts with
  | nil => rfl
  | cons s ss ih =>
    rw [checkAny, attempt, bind_assoc]
    congr 1
    funext verdict
    cases verdict with
    | accept => rfl
    | reject f =>
      dsimp only
      rw [bind_assoc]
      simp only [ih]

theorem attempt_append (ss others : List Shape) (texts : List String) (v : Value) :
    attempt (ss ++ others) texts v =
      attempt ss texts v >>= further fun before => attempt others before v := by
  induction ss generalizing texts with
  | nil => rfl
  | cons s ss ih =>
    rw [List.cons_append, attempt, attempt, bind_assoc]
    congr 1
    funext verdict
    cases verdict with
    | accept => rfl
    | reject f =>
      dsimp only
      rw [bind_assoc]
      simp only [ih]

/-- The text of a chain: each alternative after the first is joined to all before it. -/
def nestedText : List String → String
  | [] => ""
  | first :: rest => rest.foldl (fun text other => "(" ++ text ++ ") and (" ++ other ++ ")") first

def nestedReason (texts : List String) : Reason :=
  .noneOf [nestedText texts.dropLast, texts.getLastD ""]

theorem nestedText_append_singleton {texts : List String} (some : texts ≠ []) (text : String) :
    nestedText (texts ++ [text]) = "(" ++ nestedText texts ++ ") and (" ++ text ++ ")" := by
  cases texts with
  | nil => exact absurd rfl some
  | cons first rest => rw [List.cons_append, nestedText, nestedText, List.foldl_append]; rfl

theorem nestedReason_append_singleton (texts : List String) (text : String) :
    nestedReason (texts ++ [text]) = .noneOf [nestedText texts, text] := by
  rw [nestedReason, List.dropLast_concat, List.getLastD_concat]

theorem text_noneOf_pair (first second : String) :
    (Reason.noneOf [first, second]).text = "(" ++ first ++ ") and (" ++ second ++ ")" := by
  change "(" ++ first ++ ")" ++ " and " ++ ("(" ++ second ++ ")") = _
  rw [← String.toList_inj]
  simp only [String.toList_append, List.append_assoc]
  rfl

theorem text_nestedReason {texts : List String} (many : 2 ≤ texts.length) :
    (nestedReason texts).text = nestedText texts := by
  rcases List.eq_nil_or_concat texts with rfl | ⟨before, text, rfl⟩
  · simp at many
  · have some : before ≠ [] := by
      rintro rfl
      simp at many
    rw [List.concat_eq_append, nestedReason_append_singleton, nestedText_append_singleton some,
      text_noneOf_pair]

/-- The failure of the shape on the value, if there is one, can be put in words. -/
def RendersOn (s : Shape) (v : Value) : Prop :=
  ∀ f, s.RejectsAs v f → ∃ text, f.render = .ok text

/-- How a chain ends with the verdict of its last alternative, after failures of all others. -/
def lastly (texts : List String) : Verdict → Run Verdict
  | .accept => accept
  | .reject f => do
    let text ← f.render
    fail (.noneOf [nestedText texts, text])

theorem attempt_last (s : Shape) (texts : List String) (v : Value) :
    attempt [s] texts v >>= conclude nestedReason = check s v >>= lastly texts := by
  rw [attempt, bind_assoc]
  refine Run.bind_congr fun verdict _ => ?_
  cases verdict with
  | accept => rfl
  | reject f =>
    dsimp only
    rw [bind_assoc]
    refine Run.bind_congr fun text _ => ?_
    rw [← nestedReason_append_singleton]
    rfl

theorem length_of_attempt {ss : List Shape} {before texts : List String} {v : Value}
    (attempted : (attempt ss before v).result = .ok (some texts)) :
    texts.length = before.length + ss.length := by
  induction ss generalizing before with
  | nil =>
    cases attempted
    rfl
  | cons s ss ih =>
    obtain ⟨verdict, _, rest⟩ := Run.bind_ok_iff.mp attempted
    cases verdict with
    | accept => cases rest
    | reject f =>
      obtain ⟨text, _, rest⟩ := Run.bind_ok_iff.mp rest
      rw [ih rest, List.length_append, List.length_singleton, List.length_cons]
      omega

theorem check_either_first {first second : Shape} {v : Value} (renders : first.RendersOn v) :
    check (.either first second) v = attempt [first, second] [] v >>= conclude nestedReason := by
  rw [check, attempt, bind_assoc]
  refine Run.bind_congr fun verdict checked => ?_
  cases verdict with
  | accept => rfl
  | reject f =>
    obtain ⟨text, shown⟩ := renders f checked
    dsimp only
    rw [shown]
    change (check second v >>= _) = attempt [second] [text] v >>= _
    rw [attempt_last]
    refine Run.bind_congr fun verdict _ => ?_
    cases verdict <;> rfl

theorem check_either_next {before last : Shape} {tried : List Shape} {v : Value}
    (many : 2 ≤ tried.length)
    (chained : check before v = attempt tried [] v >>= conclude nestedReason) :
    check (.either before last) v =
      attempt (tried ++ [last]) [] v >>= conclude nestedReason := by
  rw [check, chained, attempt_append, bind_assoc, bind_assoc]
  refine Run.bind_congr fun ending attempted => ?_
  cases ending with
  | none => rfl
  | some texts =>
    have length := length_of_attempt attempted
    rw [List.length_nil, Nat.zero_add] at length
    -- the failure of the chain so far is at the value itself, with no place to be shown
    have joined : (Failure.of (nestedReason texts)).render = .ok (nestedText texts) :=
      congrArg Except.ok (text_nestedReason (length ▸ many))
    change (check last v >>= _) = attempt [last] texts v >>= _
    rw [attempt_last]
    refine Run.bind_congr fun verdict _ => ?_
    cases verdict with
    | accept => rfl
    | reject f =>
      dsimp only
      rw [joined]
      rfl

theorem check_chain {first : Shape} {rest : List Shape} {v : Value} (more : rest ≠ [])
    (renders : first.RendersOn v) :
    check (rest.foldl .either first) v =
      attempt (first :: rest) [] v >>= conclude nestedReason := by
  -- a chain grows at its end, and only its first link looks at a failure before rendering it
  induction rest using List.reverseRecOn with
  | nil => exact absurd rfl more
  | append_singleton rest last ih =>
    rw [List.foldl_append, List.foldl_cons, List.foldl_nil]
    by_cases alone : rest = []
    · subst alone
      exact check_either_first renders
    · rw [← List.cons_append]
      have many : 2 ≤ (first :: rest).length := Nat.succ_le_succ (List.length_pos_iff.mpr alone)
      exact check_either_next many (ih alone)

def verdictBy (reason : List String → Reason) : Option (List String) → Verdict
  | none => .accept
  | some texts => .reject (.of (reason texts))

theorem result_conclude (r : Run (Option (List String))) (reason : List String → Reason) :
    (r >>= conclude reason).result = r.result.map (verdictBy reason) := by
  change (Run.bind r _).result = _
  unfold Run.bind
  cases r.result with
  | error fault => rfl
  | ok ending => cases ending <;> rfl

theorem events_conclude (r : Run (Option (List String))) (reason : List String → Reason) :
    (r >>= conclude reason).events = r.events := by
  apply Run.events_bind_silent
  intro ending
  cases ending <;> rfl

theorem attempt_some_iff {ss : List Shape} {v : Value} {texts : List String} :
    (attempt ss [] v).result = .ok (some texts) ↔ List.Forall₂ (FailsWithText v) ss texts := by
  have rejected := @checkAny_reject_iff ss [] v (.of (.noneOf texts))
  rw [checkAny_eq_attempt, result_conclude] at rejected
  constructor
  · intro attempted
    rw [attempted] at rejected
    obtain ⟨others, all, same⟩ := rejected.mp rfl
    cases same
    exact all
  · intro all
    have ending := rejected.mpr ⟨texts, all, rfl⟩
    cases attempted : (attempt ss [] v).result with
    | error fault =>
      rw [attempted] at ending
      cases ending
    | ok out =>
      rw [attempted] at ending
      cases out with
      | none => cases ending
      | some others =>
        cases ending
        rfl

theorem check_anyOf_pair {first second : Shape} {v : Value} (renders : first.RendersOn v) :
    check (.anyOf [first, second]) v = check (.either first second) v := by
  rw [check_either_first renders, check, checkAny_eq_attempt]
  refine Run.bind_congr fun ending attempted => ?_
  cases ending with
  | none => rfl
  | some texts =>
    obtain ⟨text, other, rfl⟩ := List.length_eq_two.mp (length_of_attempt attempted)
    rfl

section Calls

variable {v : Value}

theorem inTurn_append_singleton {α : Type} (goesOn : α → Bool) (xs : List α) (x : α) :
    inTurn goesOn (xs ++ [x]) = inTurn goesOn xs ++ if xs.all goesOn then [x] else [] := by
  induction xs with
  | nil => simp [inTurn]
  | cons y ys ih =>
    rw [List.cons_append, inTurn, inTurn, ih, List.all_cons]
    cases goesOn y <;> simp

theorem rendered_iff {s : Shape} : (s.on v).rendered = true ↔ ∃ text, FailsWithText v s text := by
  unfold Call.rendered on Call.run
  dsimp only
  constructor
  · intro rendered
    split at rendered
    · rename_i f rejected
      cases shown : f.render with
      | error fault =>
        rw [shown] at rendered
        cases rendered
      | ok text => exact ⟨text, f, rejected, shown⟩
    · cases rendered
  · rintro ⟨text, f, rejected, shown⟩
    have failed : (s.check v).result = .ok (.reject f) := rejected
    rw [failed]
    dsimp only
    rw [shown]
    rfl

theorem exists_texts_iff {ss : List Shape} :
    (∃ texts, List.Forall₂ (FailsWithText v) ss texts) ↔
      ss.all fun s => (s.on v).rendered := by
  induction ss with
  | nil => simp
  | cons s ss ih =>
    rw [List.all_cons, Bool.and_eq_true, rendered_iff, ← ih]
    constructor
    · rintro ⟨_, all⟩
      cases all with
      | cons head tail => exact ⟨⟨_, head⟩, _, tail⟩
    · rintro ⟨⟨text, head⟩, texts, tail⟩
      exact ⟨text :: texts, .cons head tail⟩

theorem chain_rejected {first : Shape} (renders : first.RendersOn v) (rest : List Shape) :
    ((rest.foldl either first).on v).rejected = (first :: rest).all fun s => (s.on v).rendered := by
  rw [Bool.eq_iff_iff, Call.rejected_iff, ← exists_texts_iff]
  change (∃ f, (rest.foldl either first).RejectsAs v f) ↔ _
  by_cases alone : rest = []
  · subst alone
    constructor
    · rintro ⟨f, rejected⟩
      obtain ⟨text, shown⟩ := renders f rejected
      exact ⟨[text], .cons ⟨f, rejected, shown⟩ .nil⟩
    · rintro ⟨_, all⟩
      cases all with
      | cons head _ =>
        obtain ⟨f, rejected, _⟩ := head
        exact ⟨f, rejected⟩
  · simp only [RejectsAs, check_chain alone renders, result_conclude, ← attempt_some_iff]
    cases (attempt (first :: rest) [] v).result with
    | error fault => simp [Except.map]
    | ok ending => cases ending <;> simp [Except.map, verdictBy]

def made (ss : List Shape) (v : Value) : List Call :=
  (inTurn Call.rendered (ss.map fun s => s.on v)).flatMap Call.trace

theorem made_append_singleton (ss : List Shape) (last : Shape) :
    made (ss ++ [last]) v =
      made ss v ++ if ss.all fun s => (s.on v).rendered then last.trace v else [] := by
  rw [made, List.map_append, List.map_singleton, inTurn_append_singleton, List.flatMap_append,
    List.all_map]
  refine congrArg (made ss v ++ ·) ?_
  change (if ss.all (fun s => (s.on v).rendered) then [last.on v] else []).flatMap _ = _
  split
  · exact List.flatMap_singleton ..
  · rfl

theorem trace_anyOf (ss : List Shape) : (anyOf ss).trace v = (anyOf ss).on v :: made ss v :=
  trace_eq (anyOf ss) v

/-- Behind the calls of the chains that it is made of, a chain calls its alternatives as a union
    does. -/
theorem trace_chain {first : Shape} (renders : first.RendersOn v) (rest : List Shape) :
    ∃ outer : List Call, (∀ call ∈ outer, ∃ left right, call = (either left right).on v) ∧
      (rest.foldl either first).trace v = outer ++ made (first :: rest) v := by
  induction rest using List.reverseRecOn with
  | nil =>
    refine ⟨[], by simp, ?_⟩
    rw [List.nil_append, made, List.map_singleton, inTurn, inTurn, ite_self]
    exact (List.flatMap_singleton ..).symm
  | append_singleton rest last ih =>
    obtain ⟨outer, chains, traced⟩ := ih
    rw [List.foldl_append, List.foldl_cons, List.foldl_nil]
    generalize joined : rest.foldl either first = before at traced
    refine ⟨(either before last).on v :: outer, List.forall_mem_cons.mpr ⟨⟨_, _, rfl⟩, chains⟩, ?_⟩
    have rejected := joined ▸ chain_rejected renders rest
    have called : (either before last).calls v = before.on v ::
        if (first :: rest).all fun s => (s.on v).rendered then [last.on v] else [] := by
      rw [← rejected, calls, planned, inTurn, inTurn, inTurn, ite_self]
      rfl
    rw [trace_eq, called, ← List.cons_append, made_append_singleton, List.flatMap_cons,
      List.cons_append, ← List.append_assoc]
    change _ :: (before.trace v ++ _) = _
    rw [traced]
    split
    · rw [List.flatMap_singleton]
      rfl
    · rfl

end Calls

section Unrendered

variable {first : Shape} {v : Value} {f : Failure} {fault : Fault}

theorem check_anyOf_stopped (rejected : first.RejectsAs v f) (stopped : f.render = .error fault)
    (others : List Shape) : (check (.anyOf (first :: others)) v).result = .error fault := by
  rw [check, checkAny, Run.result_bind rejected]
  exact Run.bind_stopped stopped _

theorem result_either_of_never {before : Shape} (never : ∀ g, ¬ before.RejectsAs v g)
    (last : Shape) : (check (.either before last) v).result = (check before v).result := by
  rw [check]
  cases ending : (check before v).result with
  | error fault => exact Run.bind_stopped ending _
  | ok verdict =>
    rw [Run.result_bind ending]
    cases verdict with
    | accept => rfl
    | reject g => exact absurd ending (never g)

theorem result_chain_of_never {before : Shape} (never : ∀ g, ¬ before.RejectsAs v g)
    (rest : List Shape) :
    (check (rest.foldl either before) v).result = (check before v).result := by
  induction rest generalizing before with
  | nil => rfl
  | cons s rest ih =>
    have same := result_either_of_never never s
    have still : ∀ g, ¬ (either before s).RejectsAs v g := by
      intro g rejected
      exact never g (same.symm.trans rejected)
    exact (ih still).trans same

/-- Of two alternatives the second decides where the first cannot say why it fails, unless the
    second fails too. -/
theorem check_either_unrendered (second : Shape) (rejected : first.RejectsAs v f)
    (stopped : f.render = .error fault) :
    ((either first second).Accepts v ↔ second.Accepts v) ∧
      ∀ g, ¬ (either first second).RejectsAs v g := by
  unfold Accepts RejectsAs
  rw [check, Run.result_bind rejected]
  dsimp only
  cases ending : (check second v).result with
  | error other =>
    rw [Run.bind_stopped ending]
    simp
  | ok verdict =>
    rw [Run.result_bind ending]
    cases verdict with
    | accept => simp
    | reject g =>
      dsimp only
      rw [Run.bind_stopped stopped]
      simp

end Unrendered

end Shape

def ShapeError.bare (text : String) : ShapeError := ⟨text, [], text⟩

/-- How a union and a chain of the same alternatives agree on a value. -/
structure AgreeOn (alternatives : List Schema) (union chained : Schema) (v : Value) : Prop where
  /-- Both are stopped by one fault, both accept, or both fail and say so with the messages of
      all alternatives. -/
  results :
    (∃ fault, (union.validate v).result = .error fault ∧
      (chained.validate v).result = .error fault) ∨
    ((union.validate v).result = .ok (.ok v) ∧ (chained.validate v).result = .ok (.ok v)) ∨
    ∃ texts, List.Forall₂ (fun s text => ∃ e, (s.validate v).result = .ok (.error e) ∧
        e.message = text) alternatives texts ∧
      (union.validate v).result = .ok (.error (.bare
        (" and ".intercalate (texts.map fun text => "(" ++ text ++ ")")))) ∧
      (chained.validate v).result = .ok (.error (.bare (Shape.nestedText texts)))
  /-- What the checks leave behind is the same. -/
  events : (union.validate v).events = (chained.validate v).events
  /-- The alternatives are called in one order, each for as long as all before it fail. -/
  calls : ∃ outer, (∀ call ∈ outer, ∃ left right, call = (Shape.either left right).on v) ∧
    union.shape.trace v = union.shape.on v :: Shape.made (alternatives.map Schema.shape) v ∧
    chained.shape.trace v = outer ++ Shape.made (alternatives.map Schema.shape) v

namespace Schema

theorem failsWithText_iff {s : Schema} {v : Value} {text : String} :
    Shape.FailsWithText v s.shape text ↔
      ∃ e, (s.validate v).result = .ok (.error e) ∧ e.message = text := by
  constructor
  · rintro ⟨f, rejected, shown⟩
    have reported : f.toError = .ok ⟨text, f.path, f.reason.text⟩ :=
      Failure.toError_ok_iff.mpr ⟨shown, rfl, rfl⟩
    exact ⟨_, validate_ok_iff.mpr (Or.inr ⟨f, _, rejected, reported, rfl⟩), rfl⟩
  · rintro ⟨e, ending, rfl⟩
    rcases validate_ok_iff.mp ending with ⟨_, impossible⟩ | ⟨f, g, rejected, reported, same⟩
    · cases impossible
    · cases same
      exact ⟨f, rejected, (Failure.toError_ok_iff.mp reported).1⟩

theorem result_of_attempt {s : Schema} {v : Value} {ss : List Shape}
    {reason : List String → Reason}
    (attempted : s.shape.check v = Shape.attempt ss [] v >>= Shape.conclude reason) :
    (s.validate v).result = (Shape.attempt ss [] v).result.map fun
      | none => .ok v
      | some texts => .error (.bare (reason texts).text) := by
  rw [result_validate, attempted, Shape.result_conclude]
  cases (Shape.attempt ss [] v).result with
  | error fault => rfl
  | ok ending => cases ending <;> rfl

theorem unrendered {first second : Schema} {rest : List Schema} {union chained : Schema}
    {v : Value} (unsaid : ¬ first.shape.RendersOn v)
    (united : union.shape = .anyOf ((first :: second :: rest).map shape))
    (linked : chained.shape = ((second :: rest).map shape).foldl Shape.either first.shape) :
    (∃ fault, (union.validate v).result = .error fault) ∧
      ((chained.validate v).result = .ok (.ok v) ↔ (second.validate v).result = .ok (.ok v)) ∧
      ∀ e, (chained.validate v).result ≠ .ok (.error e) := by
  obtain ⟨f, rejected, fault, stopped⟩ : ∃ f, first.shape.RejectsAs v f ∧
      ∃ fault, f.render = .error fault := by
    by_contra all
    apply unsaid
    intro f rejected
    cases shown : f.render with
    | ok text => exact ⟨text, rfl⟩
    | error fault => exact absurd ⟨f, rejected, fault, shown⟩ all
  obtain ⟨accepts, never⟩ := Shape.check_either_unrendered second.shape rejected stopped
  have same : (chained.shape.check v).result =
      ((Shape.either first.shape second.shape).check v).result := by
    rw [linked]
    exact Shape.result_chain_of_never never _
  refine ⟨⟨fault, ?_⟩, ?_, ?_⟩
  · rw [result_validate, united, List.map_cons, Shape.check_anyOf_stopped rejected stopped]
  · rw [validate_accept_iff, validate_accept_iff, ← accepts, Shape.Accepts, same]
    rfl
  · intro e ending
    obtain ⟨g, failed, _⟩ := validate_error ending
    exact never g (same.symm.trans failed)

theorem agreeOn {first second : Schema} {rest : List Schema} {union chained : Schema} {v : Value}
    (renders : first.shape.RendersOn v)
    (united : union.shape = .anyOf ((first :: second :: rest).map shape))
    (linked : chained.shape = ((second :: rest).map shape).foldl Shape.either first.shape) :
    AgreeOn (first :: second :: rest) union chained v := by
  have unionCheck : union.shape.check v =
      Shape.attempt ((first :: second :: rest).map shape) [] v >>= Shape.conclude .noneOf := by
    rw [united, Shape.check]
    exact Shape.checkAny_eq_attempt _ [] v
  have chainCheck : chained.shape.check v =
      Shape.attempt ((first :: second :: rest).map shape) [] v >>=
        Shape.conclude Shape.nestedReason := by
    rw [linked]
    exact Shape.check_chain (by simp) renders
  refine ⟨?results, ?events, ?calls⟩
  case results =>
    have unionResult := result_of_attempt unionCheck
    have chainResult := result_of_attempt chainCheck
    cases attempted : (Shape.attempt ((first :: second :: rest).map shape) [] v).result with
    | error fault =>
      rw [attempted] at unionResult chainResult
      exact Or.inl ⟨fault, unionResult, chainResult⟩
    | ok ending =>
      rw [attempted] at unionResult chainResult
      cases ending with
      | none => exact Or.inr (Or.inl ⟨unionResult, chainResult⟩)
      | some texts =>
        have many : 2 ≤ texts.length := by
          rw [Shape.length_of_attempt attempted]
          simp
        have all := List.forall₂_map_left_iff.mp (Shape.attempt_some_iff.mp attempted)
        refine Or.inr (Or.inr ⟨texts, all.imp fun _ _ => failsWithText_iff.mp, unionResult, ?_⟩)
        rw [← Shape.text_nestedReason many]
        exact chainResult
  case events =>
    rw [events_validate, events_validate, unionCheck, chainCheck, Shape.events_conclude,
      Shape.events_conclude]
  case calls =>
    obtain ⟨outer, chains, traced⟩ :=
      Shape.trace_chain renders ((second :: rest).map shape)
    refine ⟨outer, chains, ?_, ?_⟩
    · rw [united]
      exact Shape.trace_anyOf _
    · rw [linked]
      exact traced

end Schema

/-- A union and a chain of the same alternatives are built alike and have one type. Where the
    first alternative can say why it fails, they agree; with two alternatives they even fail
    alike. Where it cannot, the union is stopped, and the chain accepts if the second alternative
    does. What is written in full on paper can always be said. -/
theorem union_agrees_with_chain {first second : Schema} {rest : List Schema}
    (given : ∀ s ∈ first :: second :: rest, s.shape.Every (Shape.GivenTypes TypeExpr.Flat)) :
    (Schema.anyOf (first :: second :: rest)).map Schema.type =
      (Schema.chain first (second :: rest)).map Schema.type ∧
    ∀ union chained : Schema, Schema.anyOf (first :: second :: rest) = .ok union →
      Schema.chain first (second :: rest) = .ok chained → ∀ v : Value,
        (first.shape.RendersOn v → AgreeOn (first :: second :: rest) union chained v ∧
          (rest = [] → union.shape.check v = chained.shape.check v)) ∧
        (¬ first.shape.RendersOn v → (∃ fault, (union.validate v).result = .error fault) ∧
          ((chained.validate v).result = .ok (.ok v) ↔
            (second.validate v).result = .ok (.ok v)) ∧
          ∀ e, (chained.validate v).result ≠ .ok (.error e)) ∧
        (first.shape.Every Shape.Steady → v.Shallow → v.Writable → first.shape.NamesReadable →
          first.shape.RendersOn v) := by
  constructor
  · rw [Schema.map_type_anyOf, Schema.map_type_chain (by simp)]
    intro s member
    exact Schema.type_flat (given s member)
  · intro union chained united linked v
    have unionShape := Schema.shape_of united
    have chainShape := Schema.shape_chain linked
    refine ⟨fun renders => ⟨Schema.agreeOn renders unionShape chainShape, ?pair⟩,
      fun unsaid => Schema.unrendered unsaid unionShape chainShape, ?written⟩
    case pair =>
      rintro rfl
      rw [unionShape, chainShape]
      exact Shape.check_anyOf_pair renders
    case written =>
      intro steady shallow writable readable f rejected
      have confined := Shape.check_confined steady first.typed v
      exact (confined.render rejected).returns (Shape.not_stops shallow writable readable)

theorem null_refused_by_all :
    ∃ union chained : Schema, Schema.anyOf [textOnly, flag, numbers] = .ok union ∧
      Schema.chain textOnly [flag, numbers] = .ok chained ∧ union.type = chained.type ∧
      AgreeOn [textOnly, flag, numbers] union chained .null ∧
      (union.validate .null).result = .ok (.error (.bare ("(Expected string, got null) and " ++
        "(Expected boolean, got null) and (Expected object, got null)"))) ∧
      (chained.validate .null).result = .ok (.error (.bare ("((Expected string, got null) and " ++
        "(Expected boolean, got null)) and (Expected object, got null)"))) := by
  have given : ∀ s ∈ [textOnly, flag, numbers],
      s.shape.Every (Shape.GivenTypes TypeExpr.Flat) := by
    simp only [List.forall_mem_cons]
    refine ⟨.leaf trivial rfl, .leaf trivial rfl, .node trivial ?_, by simp⟩
    exact List.forall_mem_singleton.mpr (.leaf trivial rfl)
  obtain ⟨types, agree⟩ := union_agrees_with_chain given
  have steady : textOnly.shape.Every Shape.Steady := .leaf trivial rfl
  have readable : textOnly.shape.NamesReadable := .leaf trivial rfl
  have shallow : Value.null.Shallow := Value.Acyclic.shallow (.scalar trivial) (Nat.zero_le _)
  have clauses := agree _ _ rfl rfl .null
  have renders := clauses.2.2 steady shallow (.scalar trivial) readable
  exact ⟨_, _, rfl, rfl, Except.ok.inj types, (clauses.1 renders).1, rfl, rfl⟩

def textMap : Schema where
  shape := .record (.atomic .string)
  type := .record .text
  typed := rfl

def textMapOrAny : Schema where
  shape := .anyOf [textMap.shape, anyStruct.shape]
  type := .union [.record .text, .struct 0 []]
  typed := rfl

def switchedBy (n : Int) : Value := .dict [(.scalar (.int n), .scalar (.bool true))]

theorem textMap_unrendered {n : Int} (long : ¬ WritableInteger n) :
    ¬ textMap.shape.RendersOn (switchedBy n) := by
  intro renders
  obtain ⟨text, shown⟩ := renders ⟨.expected "string" "true", [.index n]⟩ rfl
  have unwritten : integerText n = .error .unwritableInteger := if_neg long
  have stopped : Segment.render (.index n) = .error .unwritableInteger := by
    rw [Segment.render, Segment.display, unwritten]
    rfl
  have placeless : renderPath [.index n] = .error .unwritableInteger := by
    rw [renderPath, List.mapM_cons, stopped]
    rfl
  change (renderPath [.index n] >>= _) = _ at shown
  rw [placeless] at shown
  cases shown

/-- With such a key a chain accepts what stops the union. -/
theorem chain_accepts_more :
    ¬ ∀ (first second union chained : Schema) (v : Value), first.shape.Every Shape.Builtin →
      second.shape.Every Shape.Builtin → Schema.anyOf [first, second] = .ok union →
      Schema.chain first [second] = .ok chained →
        ((union.validate v).result = .ok (.ok v) ↔ (chained.validate v).result = .ok (.ok v)) := by
  intro always
  obtain ⟨n, large⟩ : ∃ n, Nat.pow 10 digitLimit ≤ n := ⟨_, Nat.le_refl _⟩
  have builtin : textMap.shape.Every Shape.Builtin :=
    .node trivial (List.forall_mem_singleton.mpr (.leaf trivial rfl))
  have same := always textMap anyStruct textMapOrAny textsOrAny (switchedBy n) builtin
    (.leaf trivial rfl) rfl rfl
  have unsaid := textMap_unrendered (not_writable large)
  have united : textMapOrAny.shape = .anyOf ([textMap, anyStruct].map Schema.shape) := rfl
  have linked : textsOrAny.shape = ([anyStruct].map Schema.shape).foldl .either textMap.shape := rfl
  obtain ⟨⟨fault, stopped⟩, _⟩ := Schema.unrendered unsaid united linked
  cases stopped.symm.trans (same.mpr rfl)

end Conform
