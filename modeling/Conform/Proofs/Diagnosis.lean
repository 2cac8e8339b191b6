import Conform.Proofs.FirstFailure
import Conform.Proofs.Lookup
import Conform.Proofs.Parts
import Conform.Proofs.Typing
import Conform.Proofs.Validation
import Conform.Shape.Refinement

/-!
Where failures point. A failure names a part of the value and a part of the
shape: following its path from the outside leads, container by container and
shape by shape, to a part that fails all by itself, and every part that was
checked before it has passed. Maps have text and integers for keys here, so that
each segment is the key of an entry and not a text made from it.
-/
namespace Conform

def Key.IsTextOrInt : Key → Prop
  | .scalar (.text _) | .scalar (.int _) => True
  | _ => False

def Check.Bare (check : Check) : Prop :=
  ∀ v f, (check v).result = .ok (.reject f) → f.path = []

/-- The entry at a position in a container and the segment that it is found under: the text
    of an index, or a key as it is. -/
inductive Container.At : Container → Nat → Segment → Value → Prop where
  | item {items : List Value} {i : Nat} {x : Value} (found : items[i]? = some x) :
      At (.seq items) i (.name (indexName i)) x
  | text {entries : List (Key × Value)} {i : Nat} {s : String} {x : Value}
      (found : entries[i]? = some (.scalar (.text s), x)) : At (.map entries) i (.name s) x
  | int {entries : List (Key × Value)} {i : Nat} {n : Int} {x : Value}
      (found : entries[i]? = some (.scalar (.int n), x)) : At (.map entries) i (.index n) x

namespace Shape

/-- Refinements and checks of one's own fail at the value they are given. -/
def BareChecks (s : Shape) : Prop :=
  s.Every fun
    | .refined _ refine => refine.Bare
    | .custom check _ => check.Bare
    | _ => True

/-- A shape fails on a value all by itself, and for this reason. -/
inductive Refuses : Shape → Value → Reason → Prop where
  | atomic {k : AtomicKind} {v : Value} {got : String} (other : v.kind ≠ k.kind)
      (shown : Json.describe v = .ok got) : Refuses (.atomic k) v (.expected k.name got)
  | literal {tag : Nat} {candidates : List Value} {v : Value} {what got : String}
      (none : ∀ c ∈ candidates, c.kind = v.kind → c.same v = .ok false)
      (wanted : expectation candidates = .ok what) (shown : Json.describe v = .ok got) :
      Refuses (.literal tag candidates) v (.expected what got)
  | array {item : Shape} {v : Value} {got : String} (other : v.items? = none)
      (shown : Json.describe v = .ok got) : Refuses (.array item) v (.expected "array" got)
  | record {item : Shape} {v : Value} {got : String} (other : v.container? = none)
      (shown : Json.describe v = .ok got) : Refuses (.record item) v (.expected "object" got)
  | tuple {ss : List Shape} {v : Value} {got : String} (other : v.items? = none)
      (shown : Json.describe v = .ok got) : Refuses (.tuple ss) v (.expected "tuple" got)
  | length {ss : List Shape} {v : Value} {items : List Value} (opened : v.items? = some items)
      (differs : items.length ≠ ss.length) :
      Refuses (.tuple ss) v (.length ss.length items.length)
  | struct {tag : Nat} {closed : Bool} {fields : List (String × Shape)} {v : Value} {got : String}
      (other : v.container? = none) (shown : Json.describe v = .ok got) :
      Refuses (.struct tag closed fields) v (.expected "struct" got)
  | either {left right : Shape} {v : Value} {first second : String}
      (leftText : FailsWithText v left first) (rightText : FailsWithText v right second) :
      Refuses (.either left right) v (.noneOf [first, second])
  | anyOf {alternatives : List Shape} {v : Value} {texts : List String}
      (all : List.Forall₂ (FailsWithText v) alternatives texts) :
      Refuses (.anyOf alternatives) v (.noneOf texts)
  | refined {base : Shape} {refine : Check} {v : Value} {reason : Reason}
      (passed : base.Accepts v) (failed : (refine v).result = .ok (.reject (.of reason))) :
      Refuses (.refined base refine) v reason
  | custom {check : Check} {type : TypeExpr} {v : Value} {reason : Reason}
      (failed : (check v).result = .ok (.reject (.of reason))) :
      Refuses (.custom check type) v reason

/-- Following a path from a shape on a value leads to one of its parts on a part of the
    value. Only containers add a segment, and what they check before that part has passed. -/
inductive Leads : Shape → Value → List Segment → Shape → Value → Prop where
  | here {s : Shape} {v : Value} : Leads s v [] s v
  | optional {s l : Shape} {v w : Value} {path : List Segment} (present : v ≠ .undefined)
      (rest : Leads s v path l w) : Leads (.optional s) v path l w
  | nullable {s l : Shape} {v w : Value} {path : List Segment} (present : v ≠ .null)
      (rest : Leads s v path l w) : Leads (.nullable s) v path l w
  | array {s l : Shape} {v x w : Value} {path : List Segment} {items : List Value} {i : Nat}
      (opened : v.items? = some items) (found : items[i]? = some x)
      (before : ∀ j < i, ∀ y, items[j]? = some y → s.Accepts y)
      (rest : Leads s x path l w) : Leads (.array s) v (.index i :: path) l w
  | record {s l : Shape} {v x w : Value} {path : List Segment} {c : Container} {i : Nat}
      {segment : Segment} (opened : v.container? = some c) (found : c.At i segment x)
      (before : ∀ j < i, ∀ other y, c.At j other y → s.Accepts y)
      (rest : Leads s x path l w) : Leads (.record s) v (segment :: path) l w
  | tuple {ss : List Shape} {s l : Shape} {v x w : Value} {path : List Segment}
      {items : List Value} {i : Nat} (opened : v.items? = some items)
      (length : items.length = ss.length) (place : ss[i]? = some s) (found : items[i]? = some x)
      (before : ∀ j < i, ∀ t y, ss[j]? = some t → items[j]? = some y → t.Accepts y)
      (rest : Leads s x path l w) : Leads (.tuple ss) v (.index i :: path) l w
  | struct {tag : Nat} {closed : Bool} {fields : List (String × Shape)} {name : String}
      {s l : Shape} {v x w : Value} {path : List Segment} {c : Container} {i : Nat}
      (opened : v.container? = some c) (field : fields[i]? = some (name, s))
      (looked : c.lookup name = .ok x)
      (before : ∀ j < i, ∀ other, fields[j]? = some other →
        ∃ y, c.lookup other.1 = .ok y ∧ other.2.Accepts y)
      (rest : Leads s x path l w) : Leads (.struct tag closed fields) v (.name name :: path) l w
  | bothLeft {s t l : Shape} {v w : Value} {path : List Segment}
      (rest : Leads s v path l w) : Leads (.both s t) v path l w
  | bothRight {s t l : Shape} {v w : Value} {path : List Segment} (passed : s.Accepts v)
      (rest : Leads t v path l w) : Leads (.both s t) v path l w
  | mergeLeft {tag : Nat} {s t l : Shape} {v w : Value} {path : List Segment}
      (rest : Leads s v path l w) : Leads (.merge tag s t) v path l w
  | mergeRight {tag : Nat} {s t l : Shape} {v w : Value} {path : List Segment}
      (passed : s.Accepts v) (rest : Leads t v path l w) : Leads (.merge tag s t) v path l w
  | refined {s l : Shape} {refine : Check} {v w : Value} {path : List Segment}
      (rest : Leads s v path l w) : Leads (.refined s refine) v path l w

def FirstUndeclared (fields : List (String × Shape)) (c : Container) (segment : Segment) : Prop :=
  ∃ i x, c.At i segment x ∧ (∀ field ∈ fields, segment ≠ .name field.1) ∧
    ∀ j < i, ∀ other y, c.At j other y → ∃ field ∈ fields, other = .name field.1

/-- A closed struct whose fields all pass meets an entry that it does not declare. -/
def RefusesEntry (fields : List (String × Shape)) (w : Value) (segment : Segment) : Prop :=
  ∃ c, w.container? = some c ∧
    (∀ field ∈ fields, ∃ x, c.lookup field.1 = .ok x ∧ field.2.Accepts x) ∧
    FirstUndeclared fields c segment

inductive Diagnosis (s : Shape) (v : Value) : Failure → Prop where
  | part {path : List Segment} {l : Shape} {w : Value} {reason : Reason}
      (leads : Leads s v path l w) (refuses : Refuses l w reason) : Diagnosis s v ⟨reason, path⟩
  | entry (path : List Segment) {tag : Nat} {fields : List (String × Shape)} {w : Value}
      {segment : Segment} (leads : Leads s v path (.struct tag true fields) w)
      (refuses : RefusesEntry fields w segment) :
      Diagnosis s v ⟨.unexpectedField, path ++ [segment]⟩

end Shape

theorem Container.At.labelled {c : Container} {i : Nat} {segment : Segment} {x : Value}
    (found : c.At i segment x) : c.labelled[i]? = some (.ok segment, x) := by
  cases found with
  | item found => simp [Container.labelled, found]
  | text found => simp [Container.labelled, found, Key.segment]
  | int found => simp [Container.labelled, found, Key.segment]

theorem Container.at_of_labelled {c : Container} {i : Nat} {label : Except Fault Segment}
    {x : Value} (keys : ∀ es, c = .map es → ∀ e ∈ es, e.1.IsTextOrInt)
    (found : c.labelled[i]? = some (label, x)) : ∃ segment, label = .ok segment ∧
      c.At i segment x := by
  cases c with
  | seq items =>
    simp only [labelled, List.getElem?_mapIdx, Option.map_eq_some_iff] at found
    obtain ⟨y, at_i, same⟩ := found
    cases same
    exact ⟨_, rfl, .item at_i⟩
  | map entries =>
    simp only [labelled, List.getElem?_map, Option.map_eq_some_iff] at found
    obtain ⟨⟨k, y⟩, at_i, same⟩ := found
    cases same
    have plain := keys entries rfl (k, y) (List.mem_of_getElem? at_i)
    cases k with
    | tuple ks => exact plain.elim
    | scalar a =>
      cases a with
      | text s => exact ⟨_, rfl, .text at_i⟩
      | int n => exact ⟨_, rfl, .int at_i⟩
      | _ => exact plain.elim

theorem Container.At.mem_values {c : Container} {i : Nat} {segment : Segment} {x : Value}
    (found : c.At i segment x) : x ∈ c.values := by
  cases found with
  | item found => exact List.mem_of_getElem? found
  | text found => exact List.mem_map.mpr ⟨_, List.mem_of_getElem? found, rfl⟩
  | int found => exact List.mem_map.mpr ⟨_, List.mem_of_getElem? found, rfl⟩

theorem Container.lookup_mem_values {c : Container} {name : String} {x : Value}
    (looked : c.lookup name = .ok x) : x ∈ c.values ∨ x = .undefined := by
  cases c with
  | map entries =>
    cases looked
    cases found : valueUnder? entries (.scalar (.text name)) with
    | none => exact Or.inr rfl
    | some y =>
      exact Or.inl (List.mem_map.mpr (valueUnder?_mem found))
  | seq items =>
    cases index : indexDigits? name with
    | none =>
      simp only [lookup, index, Except.ok.injEq] at looked
      exact Or.inr looked.symm
    | some digits =>
      by_cases long : digitLimit < digits.length
      · simp [lookup, index, long] at looked
      · simp only [lookup, index, if_neg long, Except.ok.injEq, List.getD_eq_getElem?_getD]
          at looked
        cases found : items[Nat.ofDigitChars 10 digits 0]? with
        | none =>
          rw [found] at looked
          exact Or.inr looked.symm
        | some y =>
          rw [found] at looked
          cases looked
          exact Or.inl (List.mem_of_getElem? found)

namespace Shape

open Check

theorem refuses_alone {l : Shape} {w : Value} {reason : Reason} (refuses : Refuses l w reason) :
    l.RejectsAs w (.of reason) := by
  unfold RejectsAs
  cases refuses with
  | atomic other shown =>
    rw [check, if_neg other]
    exact expect_result_iff.mpr ⟨_, shown, rfl⟩
  | literal none wanted shown =>
    rw [check, checkLiteral, Run.bind_ok_iff]
    refine ⟨false, someEqual_false_iff.mpr none, ?_⟩
    rw [if_neg Bool.false_ne_true, Run.bind_ok_iff]
    exact ⟨_, wanted, expect_result_iff.mpr ⟨_, shown, rfl⟩⟩
  | array other shown | record other shown | tuple other shown | struct other shown =>
    rw [check, other]
    exact expect_result_iff.mpr ⟨_, shown, rfl⟩
  | length opened differs =>
    rw [check, opened]
    simp only [if_neg differs, fail_result]
  | either leftText rightText =>
    obtain ⟨f, leftFails, first⟩ := leftText
    obtain ⟨g, rightFails, second⟩ := rightText
    rw [check, Run.bind_ok_iff]
    refine ⟨.reject f, leftFails, ?_⟩
    rw [Run.bind_ok_iff]
    refine ⟨.reject g, rightFails, ?_⟩
    rw [Run.bind_ok_iff]
    refine ⟨_, first, ?_⟩
    rw [Run.bind_ok_iff]
    exact ⟨_, second, rfl⟩
  | anyOf all =>
    rw [check, checkAny_reject_iff]
    exact ⟨_, all, rfl⟩
  | refined passed failed =>
    rw [check, andThen_reject_iff]
    exact Or.inr ⟨passed, failed⟩
  | custom failed =>
    rw [check]
    exact failed

theorem Diagnosis.outwards {s t : Shape} {v x : Value} (outer : List Segment)
    (step : ∀ {path l w}, Leads t x path l w → Leads s v (outer ++ path) l w) {f : Failure}
    (inner : Diagnosis t x f) : Diagnosis s v ⟨f.reason, outer ++ f.path⟩ := by
  cases inner with
  | part leads refuses => exact .part (step leads) refuses
  | entry path leads refuses =>
    rw [← List.append_assoc]
    exact .entry _ (step leads) refuses

theorem bare_of_path_nil {check : Check} (bare : check.Bare) {v : Value} {f : Failure}
    (failed : (check v).result = .ok (.reject f)) : f = .of f.reason := by
  have outermost := bare v f failed
  cases f
  simp_all [Failure.of]

theorem everyKey_item {p : Key → Prop} {v x : Value} {items : List Value} {i : Nat}
    (keys : v.EveryKey p) (opened : v.items? = some items) (found : items[i]? = some x) :
    x.EveryKey p := by
  unfold Value.items? at opened
  split at opened
  · rename_i opens
    cases opened
    exact (Value.everyKey_container keys opens).1 x (List.mem_of_getElem? found)
  · cases opened

theorem declared_iff {fields : List (String × Shape)} {c : Container} {i : Nat}
    {segment : Segment} {x : Value} (there : c.At i segment x) :
    (fields.map (·.1)).any segment.isName ↔ ∃ field ∈ fields, segment = .name field.1 := by
  cases there <;> simp [Segment.isName]

theorem firstUndeclared_of_labelled {fields : List (String × Shape)} {c : Container}
    (keys : ∀ es, c = .map es → ∀ e ∈ es, e.1.IsTextOrInt) {i : Nat} {segment : Segment}
    {x : Value} (labelled : c.labelled[i]? = some (.ok segment, x))
    (before : ∀ j < i, ∀ label y, c.labelled[j]? = some (label, y) →
      ∃ s, label = .ok s ∧ (fields.map (·.1)).any s.isName)
    (undeclared : ¬ (fields.map (·.1)).any segment.isName) :
    FirstUndeclared fields c segment := by
  obtain ⟨_, named, found⟩ := Container.at_of_labelled keys labelled
  cases named
  refine ⟨i, x, found, ?_, ?_⟩
  · intro field member same
    exact undeclared ((declared_iff found).mpr ⟨field, member, same⟩)
  · intro j earlier other y there
    obtain ⟨s, named, declared⟩ := before j earlier _ y there.labelled
    cases named
    exact (declared_iff there).mp declared

def Diagnosed (s : Shape) : Prop :=
  ∀ v f, v.EveryKey Key.IsTextOrInt → s.RejectsAs v f → Diagnosis s v f

theorem diagnosis_of_expect {s : Shape} {what : String} {v : Value} {f : Failure}
    (rejected : (expect what v).result = .ok (.reject f))
    (refuses : ∀ got, Json.describe v = .ok got → Refuses s v (.expected what got)) :
    Diagnosis s v f := by
  obtain ⟨got, shown, same⟩ := expect_result_iff.mp rejected
  cases same
  exact .part .here (refuses got shown)

theorem diagnosed_atomic (k : AtomicKind) : Diagnosed (.atomic k) := by
  intro v f _ rejected
  rw [RejectsAs, check] at rejected
  split at rejected
  · cases rejected
  · rename_i other
    exact diagnosis_of_expect rejected fun got shown => .atomic other shown

theorem diagnosed_literal (tag : Nat) (candidates : List Value) :
    Diagnosed (.literal tag candidates) := by
  intro v f _ rejected
  rw [RejectsAs, check, checkLiteral, Run.bind_ok_iff] at rejected
  obtain ⟨found, decided, rest⟩ := rejected
  cases found with
  | true => cases rest
  | false =>
    obtain ⟨what, wanted, rest⟩ := Run.bind_ok_iff.mp rest
    exact diagnosis_of_expect rest fun got shown =>
      .literal (someEqual_false_iff.mp decided) wanted shown

theorem diagnosed_optional {base : Shape} (diagnosed : Diagnosed base) :
    Diagnosed (.optional base) := by
  intro v f keys rejected
  rw [RejectsAs, check] at rejected
  split at rejected
  · cases rejected
  · rename_i present
    have defined : v ≠ .undefined := by
      rintro rfl
      exact present rfl
    exact (diagnosed v f keys rejected).outwards [] (.optional defined)

theorem diagnosed_nullable {base : Shape} (diagnosed : Diagnosed base) :
    Diagnosed (.nullable base) := by
  intro v f keys rejected
  by_cases absent : v = .null
  · subst absent
    cases rejected
  · rw [RejectsAs, check_nullable absent] at rejected
    exact (diagnosed v f keys rejected).outwards [] (.nullable absent)

theorem diagnosed_array {item : Shape} (diagnosed : Diagnosed item) :
    Diagnosed (.array item) := by
  intro v f keys rejected
  rw [RejectsAs, check] at rejected
  split at rejected
  · rename_i items opened
    obtain ⟨i, x, g, found, before, failed, same⟩ := checkItems_reject rejected
    have inner := diagnosed x g (everyKey_item keys opened found) failed
    rw [same, Nat.zero_add]
    exact inner.outwards [.index i] (.array opened found before)
  · rename_i other
    exact diagnosis_of_expect rejected fun got shown => .array other shown

theorem diagnosed_record {item : Shape} (diagnosed : Diagnosed item) :
    Diagnosed (.record item) := by
  intro v f keys rejected
  rw [RejectsAs, check] at rejected
  split at rejected
  · rename_i c opened
    obtain ⟨i, segment, x, g, labelled, before, failed, same⟩ := checkLabelled_reject rejected
    obtain ⟨values, plain⟩ := Value.everyKey_container keys opened
    obtain ⟨_, named, found⟩ := Container.at_of_labelled plain labelled
    cases named
    have inner := diagnosed x g (values x found.mem_values) failed
    have passed : ∀ j < i, ∀ other y, c.At j other y → item.Accepts y := by
      intro j earlier other y there
      exact before j earlier _ there.labelled
    rw [same]
    exact inner.outwards [segment] (.record opened found passed)
  · rename_i other
    exact diagnosis_of_expect rejected fun got shown => .record other shown

theorem diagnosed_tuple {ss : List Shape} (each : ∀ s ∈ ss, Diagnosed s) :
    Diagnosed (.tuple ss) := by
  intro v f keys rejected
  rw [RejectsAs, check] at rejected
  split at rejected
  · rename_i items opened
    split at rejected
    · rename_i length
      obtain ⟨i, s, x, g, place, found, before, failed, same⟩ := checkEach_reject rejected
      have inner := each s (List.mem_of_getElem? place) x g (everyKey_item keys opened found) failed
      rw [same, Nat.zero_add]
      exact inner.outwards [.index i] (.tuple opened length place found before)
    · rename_i differs
      cases rejected
      exact .part .here (.length opened differs)
  · rename_i other
    exact diagnosis_of_expect rejected fun got shown => .tuple other shown

theorem diagnosed_either (left right : Shape) : Diagnosed (.either left right) := by
  intro v f _ rejected
  rw [RejectsAs, check, Run.bind_ok_iff] at rejected
  obtain ⟨first, leftRun, rest⟩ := rejected
  cases first with
  | accept => cases rest
  | reject g =>
    obtain ⟨second, rightRun, rest⟩ := Run.bind_ok_iff.mp rest
    cases second with
    | accept => cases rest
    | reject h =>
      obtain ⟨leftText, leftShown, rest⟩ := Run.bind_ok_iff.mp rest
      obtain ⟨rightText, rightShown, rest⟩ := Run.bind_ok_iff.mp rest
      cases rest
      exact .part .here (.either ⟨g, leftRun, leftShown⟩ ⟨h, rightRun, rightShown⟩)

theorem diagnosed_anyOf (alternatives : List Shape) : Diagnosed (.anyOf alternatives) := by
  intro v f _ rejected
  rw [RejectsAs, check, checkAny_reject_iff] at rejected
  obtain ⟨texts, all, same⟩ := rejected
  subst same
  exact .part .here (.anyOf all)

theorem diagnosed_both {left right : Shape} (first : Diagnosed left) (second : Diagnosed right) :
    Diagnosed (.both left right) := by
  intro v f keys rejected
  rw [RejectsAs, check, andThen_reject_iff] at rejected
  rcases rejected with failed | ⟨passed, failed⟩
  · exact (first v f keys failed).outwards [] .bothLeft
  · exact (second v f keys failed).outwards [] (.bothRight passed)

theorem diagnosed_merge {tag : Nat} {left right : Shape} (first : Diagnosed left)
    (second : Diagnosed right) : Diagnosed (.merge tag left right) := by
  intro v f keys rejected
  rw [RejectsAs, check, andThen_reject_iff] at rejected
  rcases rejected with failed | ⟨passed, failed⟩
  · exact (first v f keys failed).outwards [] .mergeLeft
  · exact (second v f keys failed).outwards [] (.mergeRight passed)

theorem diagnosed_refined {base : Shape} {refine : Check} (diagnosed : Diagnosed base)
    (bare : refine.Bare) : Diagnosed (.refined base refine) := by
  intro v f keys rejected
  rw [RejectsAs, check, andThen_reject_iff] at rejected
  rcases rejected with failed | ⟨passed, failed⟩
  · exact (diagnosed v f keys failed).outwards [] .refined
  · have same := bare_of_path_nil bare failed
    rw [same] at failed ⊢
    exact .part .here (.refined passed failed)

theorem diagnosed_custom {own : Check} {type : TypeExpr} (bare : own.Bare) :
    Diagnosed (.custom own type) := by
  intro v f _ rejected
  rw [RejectsAs, check] at rejected
  have same := bare_of_path_nil bare rejected
  rw [same] at rejected ⊢
  exact .part .here (.custom rejected)

theorem diagnosed_struct {tag : Nat} {closed : Bool} {fields : List (String × Shape)}
    (each : ∀ field ∈ fields, Diagnosed field.2) : Diagnosed (.struct tag closed fields) := by
  intro v f keys rejected
  rw [RejectsAs, check] at rejected
  split at rejected
  · rename_i c opened
    obtain ⟨values, plain⟩ := Value.everyKey_container keys opened
    rw [andThen_reject_iff] at rejected
    rcases rejected with failed | ⟨passed, rest⟩
    · obtain ⟨i, name, s, x, g, field, looked, before, failed, same⟩ := checkFields_reject failed
      have inside : x.EveryKey Key.IsTextOrInt := by
        rcases Container.lookup_mem_values looked with stored | absent
        · exact values x stored
        · subst absent
          trivial
      have inner := each _ (List.mem_of_getElem? field) x g inside failed
      rw [same]
      exact inner.outwards [.name name] (.struct opened field looked before)
    · cases closed with
      | false => cases rest
      | true =>
        obtain ⟨i, segment, x, labelled, before, undeclared, same⟩ := checkDeclared_reject rest
        subst same
        exact .entry [] .here ⟨c, opened, checkFields_accept_iff.mp passed,
          firstUndeclared_of_labelled plain labelled before undeclared⟩
  · rename_i other
    exact diagnosis_of_expect rejected fun got shown => .struct other shown

theorem diagnosed_of_bare {s : Shape} (bare : s.BareChecks) : Diagnosed s := by
  induction s using treeInduction with
  | atomic k => exact diagnosed_atomic k
  | literal tag candidates => exact diagnosed_literal tag candidates
  | optional base ih => exact diagnosed_optional (ih (bare.at_child (by simp [children])))
  | nullable base ih => exact diagnosed_nullable (ih (bare.at_child (by simp [children])))
  | array item ih => exact diagnosed_array (ih (bare.at_child (by simp [children])))
  | record item ih => exact diagnosed_record (ih (bare.at_child (by simp [children])))
  | tuple ss ih => exact diagnosed_tuple fun s member => ih s member (bare.at_child member)
  | either left right _ _ => exact diagnosed_either left right
  | anyOf alternatives _ => exact diagnosed_anyOf alternatives
  | both left right ihLeft ihRight =>
    exact diagnosed_both (ihLeft (bare.at_child (by simp [children])))
      (ihRight (bare.at_child (by simp [children])))
  | merge tag left right ihLeft ihRight =>
    exact diagnosed_merge (ihLeft (bare.at_child (by simp [children])))
      (ihRight (bare.at_child (by simp [children])))
  | refined base refine ih =>
    exact diagnosed_refined (ih (bare.at_child (by simp [children]))) bare.at_root
  | custom own type => exact diagnosed_custom bare.at_root
  | struct tag closed fields ih =>
    exact diagnosed_struct fun field member =>
      ih field member (bare.at_child (field_child member))

theorem Leads.typed {s l : Shape} {v w : Value} {path : List Segment} (leads : Leads s v path l w)
    {t : TypeExpr} (typed : s.typeExpr = .ok t) : ∃ u, l.typeExpr = .ok u := by
  induction leads generalizing t with
  | here => exact ⟨t, typed⟩
  | optional _ _ ih | nullable _ _ ih | array _ _ _ _ ih | record _ _ _ _ ih | refined _ ih
  | bothLeft _ ih | mergeLeft _ ih | bothRight _ _ ih | mergeRight _ _ ih =>
    exact (typeExpr_child typed (by simp [children])).elim fun _ inner => ih inner
  | tuple _ _ place _ _ _ ih =>
    obtain ⟨u, inner⟩ := typeExpr_child typed (List.mem_of_getElem? place)
    exact ih inner
  | struct _ field _ _ _ ih =>
    obtain ⟨u, inner⟩ := typeExpr_child typed (field_child (List.mem_of_getElem? field))
    exact ih inner

end Shape

open Shape

/-- The path of a reported error leads to a part of the schema that turns down a part of the
    value all by itself, for the reason of the error and with no path; or else to a closed
    struct, and the last segment is the first entry there that it does not declare. -/
def Explains (e : ShapeError) (s : Schema) (v : Value) : Prop :=
  (∃ (l : Schema) (w : Value) (reason : Reason), Leads s.shape v e.path l.shape w ∧
    Refuses l.shape w reason ∧ e.reason = reason.text ∧
    (l.validate w).result = .ok (.error ⟨e.reason, [], e.reason⟩)) ∨
  ∃ (path : List Segment) (segment : Segment) (tag : Nat) (fields : List (String × Shape))
    (w : Value), e.path = path ++ [segment] ∧ e.reason = "Unexpected field" ∧
    Leads s.shape v path (.struct tag true fields) w ∧ RefusesEntry fields w segment

theorem validate_error_explains {s : Schema} {v : Value} {e : ShapeError}
    (bare : s.shape.BareChecks) (keys : v.EveryKey Key.IsTextOrInt)
    (rejected : (s.validate v).result = .ok (.error e)) : Explains e s v := by
  rcases Schema.validate_ok_iff.mp rejected with ⟨_, impossible⟩ | ⟨f, e, failed, shown, same⟩
  · cases impossible
  · cases same
    obtain ⟨_, path, reason⟩ := Failure.toError_ok_iff.mp shown
    cases diagnosed_of_bare bare v _ keys failed with
    | part leads refuses =>
      obtain ⟨t, typed⟩ := leads.typed s.typed
      refine Or.inl ⟨⟨_, t, typed⟩, _, _, path ▸ leads, refuses, reason, ?_⟩
      have shownAlone : (Failure.of _).toError = .ok ⟨e.reason, [], e.reason⟩ :=
        Failure.toError_ok_iff.mpr ⟨congrArg Except.ok reason.symm, rfl, reason⟩
      exact Schema.validate_ok_iff.mpr
        (Or.inr ⟨_, _, refuses_alone refuses, shownAlone, rfl⟩)
    | entry path leads refuses => exact Or.inr ⟨_, _, _, _, _, path, reason, leads, refuses⟩

theorem minLength_bare (least : Nat) (text : String) : (Check.minLength least text).Bare := by
  intro v f failed
  unfold Check.minLength at failed
  split at failed
  · obtain ⟨got, _, same⟩ := Check.expect_result_iff.mp failed
    cases same
    rfl
  · split at failed
    · cases failed
    · cases failed
      rfl

def tagged : Schema where
  shape := .struct 0 false
    [("tags", .record (.refined (.atomic .string) (Check.minLength 2 "too short")))]
  type := .struct 0 [("tags", .record .text, true)]
  typed := rfl

def shortTag : Value :=
  .dict [(.scalar (.text "tags"),
    .dict [(.scalar (.text "a"), .text "ab"), (.scalar (.text "b"), .text "c")])]

theorem tagged_bare : tagged.shape.BareChecks := by
  apply Shape.Every.node trivial
  intro c child
  cases List.mem_singleton.mp child
  apply Shape.Every.node trivial
  intro c child
  cases List.mem_singleton.mp child
  apply Shape.Every.node (minLength_bare 2 "too short")
  intro c child
  cases List.mem_singleton.mp child
  exact .node trivial fun c child => by cases child

theorem short_tag_explained :
    tagged.shape.BareChecks ∧ shortTag.EveryKey Key.IsTextOrInt ∧
      (tagged.validate shortTag).result =
        .ok (.error ⟨"in tags.b: too short", [.name "tags", .name "b"], "too short"⟩) ∧
      Explains ⟨"in tags.b: too short", [.name "tags", .name "b"], "too short"⟩
        tagged shortTag := by
  have keys : shortTag.EveryKey Key.IsTextOrInt := by
    simp [shortTag, Value.EveryKey, Value.EveryKeyOfEntries, Key.IsTextOrInt]
  have rejected : (tagged.validate shortTag).result =
      .ok (.error ⟨"in tags.b: too short", [.name "tags", .name "b"], "too short"⟩) := rfl
  exact ⟨tagged_bare, keys, rejected, validate_error_explains tagged_bare keys rejected⟩

end Conform
