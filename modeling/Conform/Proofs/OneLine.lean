import Conform.Proofs.Diagnosis
import Conform.Proofs.Meaning
import Conform.Proofs.Shown
import Conform.Proofs.Typing

/-!
Messages on one line. A path never breaks the line, since a segment that is not
printable is written in ASCII. The reason quotes values as JSON, which leaves the
line breaks from the next line on as they are in a text.
-/
namespace Conform

open Text

def Text.lineBreaks : List Char :=
  ['\n', '\x0b', '\x0c', '\r', '\x1c', '\x1d', '\x1e', '\u0085', '\u2028', '\u2029']

theorem Text.lineBreak_hidden : ∀ c ∈ lineBreaks, isPrintable c = false := by
  have all : lineBreaks.all (fun c => !isPrintable c) = true := by decide
  simpa using all

theorem Returns.mapM {ε α β : Type} {p : β → Prop} {f : α → Except ε β} {xs : List α}
    (each : ∀ x ∈ xs, Returns p (f x)) : Returns (fun ys => ∀ y ∈ ys, p y) (xs.mapM f) := by
  induction xs with
  | nil => exact returns_ok (by simp)
  | cons x xs ih =>
    rw [List.forall_mem_cons] at each
    rw [List.mapM_cons]
    exact each.1.bind fun _ first => (ih each.2).bind fun _ others =>
      returns_ok (List.forall_mem_cons.mpr ⟨first, others⟩)

theorem Segment.printable_render (segment : Segment) : Returns Printable segment.render := by
  refine Returns.bind (p := fun _ => True) (fun _ _ => trivial) fun text _ => returns_ok ?_
  split
  · rename_i shown
    exact List.all_eq_true.mp shown
  · exact printable_asciiJsonString text

theorem printable_renderPath (path : List Segment) : Returns Printable (renderPath path) :=
  (Returns.mapM fun segment _ => segment.printable_render).bind fun _ each =>
    returns_ok (printable_intercalate (by decide) each)

section

variable {c : Char} (hidden : isPrintable c = false)
include hidden

theorem Failure.render_hides {f : Failure} (reason : c ∉ f.reason.text.toList) :
    Returns (fun text => c ∉ text.toList) f.render := by
  unfold render
  split
  · exact returns_ok reason
  · refine (returns_of_printable hidden (printable_renderPath _)).bind fun place shown =>
      returns_ok ?_
    have start : c ∉ "in ".toList := not_mem_of_printable hidden (by decide)
    have colon : c ∉ ": ".toList := not_mem_of_printable hidden (by decide)
    simp only [String.toList_append, String.toList_ofList, List.mem_append, not_or]
    exact ⟨⟨⟨start, shown⟩, colon⟩, reason⟩

theorem Reason.expected_hides {what got : String} (wanted : c ∉ what.toList)
    (given : c ∉ got.toList) : c ∉ (Reason.expected what got).text.toList := by
  have start : c ∉ "Expected ".toList := not_mem_of_printable hidden (by decide)
  have between : c ∉ ", got ".toList := not_mem_of_printable hidden (by decide)
  unfold text
  simp only [String.toList_append, List.mem_append, not_or]
  exact ⟨⟨⟨start, wanted⟩, between⟩, given⟩

theorem Reason.length_hides (wanted actual : Nat) :
    c ∉ (Reason.length wanted actual).text.toList := by
  have start : Printable "tuple length ".toList := by decide
  have between : Printable ", got ".toList := by decide
  apply not_mem_of_printable hidden
  unfold text
  simp only [String.toList_append, printable_append]
  exact ⟨⟨⟨start, printable_nat wanted⟩, between⟩, printable_nat actual⟩

theorem Reason.noneOf_hides {rendered : List String} (each : ∀ text ∈ rendered, c ∉ text.toList) :
    c ∉ (Reason.noneOf rendered).text.toList := by
  have opening : c ∉ "(".toList := not_mem_of_printable hidden (by decide)
  have closing : c ∉ ")".toList := not_mem_of_printable hidden (by decide)
  unfold Reason.text
  rw [String.toList_intercalate]
  apply not_mem_intercalate hidden (by decide)
  rw [List.map_map, List.forall_mem_map]
  intro text member
  simp only [Function.comp_apply, String.toList_append, List.mem_append, not_or]
  exact ⟨⟨opening, each text member⟩, closing⟩

end

def Check.Quiet (c : Char) (r : Run Verdict) : Prop :=
  ∀ f, r.result = .ok (.reject f) → c ∉ f.reason.text.toList

/-- Neither the candidates of a literal nor a check of one's own shows the character. -/
def Shape.NodeHides (c : Char) : Shape → Prop
  | .literal _ candidates => ∀ w ∈ candidates, w.Hides c
  | .refined _ own | .custom own _ => ∀ v : Value, v.Hides c → Check.Quiet c (own v)
  | _ => True

namespace Check

variable {c : Char} {r : Run Verdict}

theorem quiet_accept : Quiet c accept := by
  intro f rejected
  cases rejected

theorem quiet_fail {reason : Reason} (absent : c ∉ reason.text.toList) : Quiet c (fail reason) := by
  intro f rejected
  cases rejected
  exact absent

theorem quiet_bind {α : Type} {s : Run α} {next : α → Run Verdict}
    (rest : ∀ a, s.result = .ok a → Quiet c (next a)) : Quiet c (s >>= next) := by
  intro f rejected
  obtain ⟨a, ending, after⟩ := Run.bind_ok_iff.mp rejected
  exact rest a ending f after

theorem Quiet.andThen {next : Unit → Run Verdict} (first : Quiet c r) (rest : Quiet c (next ())) :
    Quiet c (andThen r next) := by
  intro f rejected
  rcases andThen_reject_iff.mp rejected with failed | ⟨_, failed⟩
  · exact first f failed
  · exact rest f failed

theorem quiet_expect (hidden : isPrintable c = false) {what : String} {v : Value}
    (wanted : c ∉ what.toList) (hides : v.Hides c) : Quiet c (expect what v) :=
  quiet_bind fun got shown =>
    quiet_fail (Reason.expected_hides hidden wanted (Json.describe_hides hidden hides got shown))

theorem Quiet.render (hidden : isPrintable c = false) {f : Failure} (quiet : Quiet c r)
    (rejected : r.result = .ok (.reject f)) {text : String} (shown : f.render = .ok text) :
    c ∉ text.toList :=
  Failure.render_hides hidden (quiet f rejected) text shown

end Check

namespace Shape

open Check

section

variable {c : Char}

theorem checkItems_quiet {check : Check} {items : List Value} {start : Nat}
    (each : ∀ x ∈ items, Quiet c (check x)) : Quiet c (checkItems check start items) := by
  intro f rejected
  obtain ⟨i, x, g, found, _, failed, rfl⟩ := checkItems_reject rejected
  exact each x (List.mem_of_getElem? found) g failed

theorem checkEach_quiet {ss : List Shape} {items : List Value} {start : Nat}
    (each : ∀ s ∈ ss, ∀ x ∈ items, Quiet c (s.check x)) : Quiet c (checkEach ss start items) := by
  intro f rejected
  obtain ⟨i, s, x, g, place, found, _, failed, rfl⟩ := checkEach_reject rejected
  exact each s (List.mem_of_getElem? place) x (List.mem_of_getElem? found) g failed

theorem checkLabelled_quiet {check : Check} {parts : List (Except Fault Segment × Value)}
    (each : ∀ part ∈ parts, Quiet c (check part.2)) : Quiet c (checkLabelled check parts) := by
  intro f rejected
  obtain ⟨i, segment, x, g, found, _, failed, rfl⟩ := checkLabelled_reject rejected
  exact each _ (List.mem_of_getElem? found) g failed

theorem checkFields_quiet {fields : List (String × Shape)} {container : Container}
    (each : ∀ field ∈ fields, ∀ x, container.lookup field.1 = .ok x → Quiet c (field.2.check x)) :
    Quiet c (checkFields fields container) := by
  intro f rejected
  obtain ⟨i, name, s, x, g, found, looked, _, failed, rfl⟩ := checkFields_reject rejected
  exact each _ (List.mem_of_getElem? found) x looked g failed

variable (hidden : isPrintable c = false)
include hidden

theorem checkDeclared_quiet (names : List String) (parts : List (Except Fault Segment × Value)) :
    Quiet c (checkDeclared names parts) := by
  intro f rejected
  obtain ⟨i, segment, x, _, _, _, rfl⟩ := checkDeclared_reject rejected
  exact not_mem_of_printable hidden (by decide : Printable "Unexpected field".toList)

theorem checkAny_quiet {ss : List Shape} {v : Value} (each : ∀ s ∈ ss, Quiet c (s.check v)) :
    Quiet c (checkAny ss [] v) := by
  intro f rejected
  obtain ⟨texts, all, rfl⟩ := checkAny_reject_iff.mp rejected
  refine Reason.noneOf_hides hidden fun text member => ?_
  obtain ⟨s, listed, g, failed, shown⟩ := exists_related (List.Forall₂.flip all) member
  exact (each s listed).render hidden failed shown

theorem expectation_hides {candidates : List Value} (each : ∀ w ∈ candidates, w.Hides c) :
    Returns (fun text => c ∉ text.toList) (expectation candidates) := by
  refine (Returns.mapM fun w member => Json.describe_hides hidden (each w member)).bind
    fun texts shown => returns_ok ?_
  have start : c ∉ "one of ".toList := not_mem_of_printable hidden (by decide)
  rw [String.toList_append, String.toList_intercalate, List.mem_append, not_or]
  refine ⟨start, not_mem_intercalate hidden (by decide) ?_⟩
  rw [List.forall_mem_map]
  exact shown

/-- A shape gives no reason with the character when its parts give none, on values that do
    not show it. -/
theorem quiet_of_children {s : Shape} (own : s.NodeHides c) {v : Value} (hides : v.Hides c)
    (inner : ∀ child ∈ s.children, ∀ w : Value, w.Hides c → Quiet c (child.check w)) :
    Quiet c (s.check v) := by
  have quoted : ∀ {what : String}, Printable what.toList → Quiet c (expect what v) :=
    fun shown => quiet_expect hidden (not_mem_of_printable hidden shown) hides
  have here : ∀ child ∈ s.children, Quiet c (child.check v) := fun child listed =>
    inner child listed v hides
  have below : ∀ child ∈ s.children, ∀ {container}, v.container? = some container →
      ∀ x ∈ container.values, Quiet c (child.check x) :=
    fun child listed _ opened x member =>
      inner child listed x (hides.opened (Value.nodeHides_stable c) opened member)
  cases s with
  | atomic k =>
    rw [check]
    split
    · exact quiet_accept
    · apply quoted
      cases k <;> decide
  | literal tag candidates =>
    refine quiet_bind fun matched _ => ?_
    split
    · exact quiet_accept
    · exact quiet_bind fun what wanted =>
        quiet_expect hidden (expectation_hides hidden own what wanted) hides
  | optional base =>
    rw [check]
    split
    · exact quiet_accept
    · exact here base (by simp [children])
  | nullable base =>
    by_cases null : v = .null
    · subst null
      exact quiet_accept
    · rw [check_nullable null]
      exact here base (by simp [children])
  | array item =>
    rw [check]
    split
    · rename_i items opened
      exact checkItems_quiet (below item (by simp [children]) (Value.container?_of_items? opened))
    · exact quoted (by decide)
  | record item =>
    rw [check]
    split
    · rename_i container opened
      refine checkLabelled_quiet fun part member => ?_
      refine below item (by simp [children]) opened part.2 ?_
      rw [← Container.labelled_values]
      exact List.mem_map_of_mem member
    · exact quoted (by decide)
  | tuple ss =>
    rw [check]
    split
    · rename_i items opened
      split
      · exact checkEach_quiet fun child listed =>
          below child listed (Value.container?_of_items? opened)
      · exact quiet_fail (Reason.length_hides hidden _ _)
    · exact quoted (by decide)
  | either left right =>
    have first := here left (by simp [children])
    have second := here right (by simp [children])
    refine quiet_bind fun verdict tried => ?_
    cases verdict with
    | accept => exact quiet_accept
    | reject f =>
      refine quiet_bind fun verdict retried => ?_
      cases verdict with
      | accept => exact quiet_accept
      | reject g =>
        refine quiet_bind fun leftText leftShown => quiet_bind fun rightText rightShown => ?_
        refine quiet_fail (Reason.noneOf_hides hidden ?_)
        rw [List.forall_mem_cons, List.forall_mem_singleton]
        exact ⟨first.render hidden tried leftShown, second.render hidden retried rightShown⟩
  | anyOf ss => exact checkAny_quiet hidden here
  | both left right =>
    exact (here left (by simp [children])).andThen (here right (by simp [children]))
  | merge tag left right =>
    exact (here left (by simp [children])).andThen (here right (by simp [children]))
  | refined base refine => exact (here base (by simp [children])).andThen (own v hides)
  | custom check type => exact own v hides
  | struct tag closed fields =>
    rw [check]
    split
    · rename_i container opened
      refine Quiet.andThen (checkFields_quiet fun field member x looked => ?_) ?_
      · rcases Container.lookup_mem_values looked with stored | rfl
        · exact below field.2 (field_child member) opened x stored
        · exact inner field.2 (field_child member) .undefined (.scalar trivial)
      · split
        · exact checkDeclared_quiet hidden _ _
        · exact quiet_accept
    · exact quoted (by decide)

theorem check_quiet {s : Shape} (own : s.Every (NodeHides c)) {v : Value} (hides : v.Hides c) :
    Quiet c (s.check v) := by
  induction s using childInduction generalizing v with
  | step s ih =>
    exact quiet_of_children hidden own.at_root hides fun child listed w shown =>
      ih child listed (own.at_child listed) shown

end

end Shape

/-- A line break gets into a message only from a name in the value or a literal candidate,
    or from a text that JSON does not escape it in. -/
theorem error_without_line_break {s : Schema} {v : Value} {e : ShapeError} {c : Char}
    (breaks : c ∈ lineBreaks) (own : s.shape.Every (Shape.NodeHides c)) (hides : v.Hides c)
    (rejected : (s.validate v).result = .ok (.error e)) : c ∉ e.message.toList := by
  have hidden := lineBreak_hidden c breaks
  rcases Schema.validate_ok_iff.mp rejected with ⟨_, impossible⟩ | ⟨f, e, failed, shown, same⟩
  · cases impossible
  · cases same
    obtain ⟨message, _, _⟩ := Failure.toError_ok_iff.mp shown
    exact (Shape.check_quiet hidden own hides).render hidden failed message

def numbers : Schema where
  shape := .record (.atomic .number)
  type := .record (.union [.int, .float])
  typed := rfl

def broken : Value := .dict [(.scalar (.text "a\nb"), .text "x\ny")]

def brokenError : ShapeError where
  message := "in \"a\\nb\": Expected number, got \"x\\ny\""
  path := [.name "a\nb"]
  reason := "Expected number, got \"x\\ny\""

theorem broken_on_one_line :
    '\n' ∈ lineBreaks ∧ numbers.shape.Every (Shape.NodeHides '\n') ∧ broken.Hides '\n' ∧
      (numbers.validate broken).result = .ok (.error brokenError) ∧
      '\n' ∉ brokenError.message.toList := by
  have breaks : '\n' ∈ lineBreaks := by decide
  have own : numbers.shape.Every (Shape.NodeHides '\n') :=
    .node trivial (List.forall_mem_singleton.mpr (.leaf trivial rfl))
  have escaped : ∀ cs : List Char, Escaped '\n' cs := fun cs _ => by decide
  have hides : broken.Hides '\n' :=
    .node (List.forall_mem_singleton.mpr (escaped _))
      (List.forall_mem_singleton.mpr (.scalar (escaped _)))
  have rejected : (numbers.validate broken).result = .ok (.error brokenError) := rfl
  exact ⟨breaks, own, hides, rejected, error_without_line_break breaks own hides rejected⟩

theorem shown_raw {t : String} {c : Char} (member : c ∈ t.toList) (raw : escapeChar c = [c]) :
    ∃ e, (numbers.validate (.text t)).result = .ok (.error e) ∧ c ∈ e.message.toList := by
  let got := String.ofList (jsonString t.toList)
  refine ⟨⟨(Reason.expected "object" got).text, [], (Reason.expected "object" got).text⟩, rfl, ?_⟩
  have quoted : c ∈ got.toList := by
    rw [String.toList_ofList]
    refine List.mem_cons_of_mem _ (List.mem_append_left _ (List.mem_flatMap.mpr ⟨c, member, ?_⟩))
    rw [raw]
    exact List.mem_singleton.mpr rfl
  unfold Reason.text
  rw [String.toList_append]
  exact List.mem_append_right _ quoted

/-- A line separator in a text breaks the message that turns the text down. -/
theorem separator_breaks_message :
    numbers.shape.Every Shape.Builtin ∧ '\u2028' ∈ lineBreaks ∧
      ∃ e, (numbers.validate (.text "a\u2028b")).result = .ok (.error e) ∧
        '\u2028' ∈ e.message.toList := by
  have builtin : numbers.shape.Every Shape.Builtin :=
    .node trivial (List.forall_mem_singleton.mpr (.leaf trivial rfl))
  exact ⟨builtin, by decide, shown_raw (by decide) (by decide)⟩

end Conform
