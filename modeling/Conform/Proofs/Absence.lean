import Conform.Proofs.Undefined

/-!
Fields that may be absent. The type of a conjunction is that of its left operand, so
what a struct type says of a field can be seen in the leading parts of its checks
alone. A map that is accepted is accepted without a field exactly where every
operand that declares the field admits the undefined value, while the type promises
it for the leading part of one of them.
-/
namespace Conform

def entriesWithout (k : String) (es : List (Key × Value)) : List (Key × Value) :=
  es.filter fun e => !e.1.same (.scalar (.text k))

def Value.without (k : String) : Value → Value
  | .map name kind es => .map none kind (entriesWithout k (entries name kind es))
  | v => v

theorem Value.container?_without {v : Value} {es : List (Key × Value)}
    (opened : v.container? = some (.map es)) (k : String) :
    (v.without k).container? = some (.map (entriesWithout k es)) := by
  cases v with
  | map name kind fs =>
    cases opened
    rfl
  | _ => cases opened

namespace Container

variable {k name : String} {es : List (Key × Value)}

theorem lookup_without_self : (map (entriesWithout k es)).lookup k = .ok .undefined := by
  have none : valueUnder? (entriesWithout k es) (.scalar (.text k)) = Option.none := by
    rw [valueUnder?, Option.map_eq_none_iff, List.find?_eq_none]
    intro e member
    simpa using (List.mem_filter.mp member).2
  rw [lookup, none]
  rfl

theorem lookup_without_other (other : name ≠ k) :
    (map (entriesWithout k es)).lookup name = (map es).lookup name := by
  have apart : ∀ e : Key × Value, e.1.same (.scalar (.text name)) = true →
      e.1.same (.scalar (.text k)) = false := by
    intro e named
    rw [Bool.eq_false_iff]
    intro removed
    have text := (Key.same_text_iff.mp named).symm.trans (Key.same_text_iff.mp removed)
    exact other (Option.some.inj text)
  have found : valueUnder? (entriesWithout k es) (.scalar (.text name)) =
      valueUnder? es (.scalar (.text name)) := by
    rw [valueUnder?, valueUnder?, entriesWithout, List.find?_filter]
    congr 2
    funext e
    cases named : e.1.same (.scalar (.text name)) with
    | false => simp [named]
    | true => simp [named, apart e named]
  rw [lookup, lookup, found]

theorem labelled_without : (map (entriesWithout k es)).labelled.Sublist (map es).labelled :=
  List.filter_sublist.map _

end Container

namespace Shape

open Check

def Settles (r : Run Verdict) : Prop :=
  ∃ verdict, r.result = .ok verdict ∧ ∀ f, verdict = .reject f → f.path = []

theorem settles_accept : Settles accept := by
  refine ⟨.accept, rfl, ?_⟩
  intro f impossible
  cases impossible

theorem settles_fail (reason : Reason) : Settles (fail reason) := by
  refine ⟨.reject (.of reason), rfl, ?_⟩
  intro f same
  cases same
  rfl

theorem settles_andThen {r : Run Verdict} {next : Unit → Run Verdict} (first : Settles r)
    (rest : Settles (next ())) : Settles (andThen r next) := by
  obtain ⟨verdict, checked, bare⟩ := first
  unfold andThen Settles
  rw [Run.result_bind checked]
  cases verdict with
  | accept => exact rest
  | reject f => exact ⟨.reject f, rfl, bare⟩

theorem render_bare {f : Failure} (bare : f.path = []) : f.render = .ok f.reason.text := by
  unfold Failure.render
  rw [bare]

theorem settles_either {left right : Shape} {v : Value} (first : Settles (left.check v))
    (second : Settles (right.check v)) : Settles ((either left right).check v) := by
  obtain ⟨verdict, tried, bare⟩ := first
  unfold Settles
  rw [check, Run.result_bind tried]
  cases verdict with
  | accept => exact settles_accept
  | reject f =>
    obtain ⟨verdict, retried, bare'⟩ := second
    rw [Run.result_bind retried]
    cases verdict with
    | accept => exact settles_accept
    | reject g =>
      simp only [render_bare (bare f rfl), render_bare (bare' g rfl)]
      exact settles_fail _

theorem settles_any {ss : List Shape} {v : Value} (each : ∀ s ∈ ss, Settles (s.check v))
    (rendered : List String) : Settles (checkAny ss rendered v) := by
  induction ss generalizing rendered with
  | nil => exact settles_fail _
  | cons s ss ih =>
    rw [List.forall_mem_cons] at each
    obtain ⟨verdict, tried, bare⟩ := each.1
    unfold Settles
    rw [checkAny, Run.result_bind tried]
    cases verdict with
    | accept => exact settles_accept
    | reject f =>
      simp only [render_bare (bare f rfl)]
      exact ih each.2 _

theorem someEqual_undefined (candidates : List Value) :
    ∃ found, someEqual .undefined candidates = .ok found := by
  induction candidates with
  | nil => exact ⟨false, rfl⟩
  | cons c cs ih =>
    by_cases kind : c.kind = Value.undefined.kind
    · rw [TypeExpr.eq_undefined_of_kind kind]
      exact ⟨true, rfl⟩
    · rw [someEqual, if_neg kind]
      exact ih

theorem settles_literal {tag : Nat} {candidates : List Value} {t : TypeExpr}
    (typed : (literal tag candidates).typeExpr = .ok t) :
    Settles ((literal tag candidates).check .undefined) := by
  obtain ⟨what, wanted, _⟩ := except_bind_ok_iff.mp typed
  obtain ⟨found, decided⟩ := someEqual_undefined candidates
  unfold Settles
  rw [check, checkLiteral, Run.result_bind decided]
  cases found with
  | true => exact settles_accept
  | false =>
    rw [if_neg Bool.false_ne_true, Run.result_bind wanted]
    exact settles_fail _

theorem settles_undefined {s : Shape} (builtin : s.Every Builtin) {t : TypeExpr}
    (typed : s.typeExpr = .ok t) : Settles (s.check .undefined) := by
  induction s using childInduction generalizing t with
  | step s ih =>
    have part : ∀ c ∈ s.children, Settles (c.check .undefined) := by
      intro c child
      obtain ⟨u, built⟩ := typeExpr_child typed child
      exact ih c child (builtin.at_child child) built
    cases s with
    | atomic k =>
      rw [check]
      split
      · exact settles_accept
      · exact settles_fail _
    | literal tag candidates => exact settles_literal typed
    | optional base => exact settles_accept
    | nullable base =>
      rw [check_nullable (by simp)]
      exact part base (by simp [children])
    | array item | record item | tuple ss | struct tag closed fields => exact settles_fail _
    | either left right =>
      exact settles_either (part left (by simp [children])) (part right (by simp [children]))
    | anyOf ss => exact settles_any part []
    | both left right | merge tag left right =>
      exact settles_andThen (part left (by simp [children])) (part right (by simp [children]))
    | refined base refine => exact builtin.at_root.elim
    | custom own type => exact builtin.at_root.elim

theorem accepts_undefined_iff {s : Shape} (builtin : s.Every Builtin) {t : TypeExpr}
    (typed : s.typeExpr = .ok t) : s.Accepts .undefined ↔ s.Admits .undefined := by
  obtain ⟨verdict, checked, _⟩ := settles_undefined builtin typed
  have decides := check_decides s .undefined verdict checked
  constructor
  · intro accepted
    exact (check_decides s .undefined _ accepted).mp rfl
  · intro admits
    rw [decides.mpr admits] at checked
    exact checked

mutual

/-- A shape as its type sees it where the value has no parts: of a conjunction the left
    operand. -/
def leading : Shape → Shape
  | .optional base => .optional (leading base)
  | .nullable base => .nullable (leading base)
  | .either left right => .either (leading left) (leading right)
  | .anyOf alternatives => .anyOf (leadings alternatives)
  | .both left _ => leading left
  | .merge _ left _ => leading left
  | s => s
termination_by structural s => s

def leadings : List Shape → List Shape
  | [] => []
  | s :: ss => leading s :: leadings ss
termination_by structural ss => ss

end

theorem leadings_eq_map (ss : List Shape) : leadings ss = ss.map leading := by
  induction ss with
  | nil => rfl
  | cons s ss ih => rw [leadings, ih, List.map_cons]

end Shape

namespace TypeExpr

theorem admitsUndefined_of_member {t m : TypeExpr} (member : m ∈ t.members)
    (admits : m.admitsUndefined = true) : t.admitsUndefined = true := by
  unfold members at member
  split at member
  · exact someAdmitUndefined_iff.mpr ⟨m, member, admits⟩
  · exact someAdmitUndefined_iff.mpr ⟨m, member, admits⟩
  · exact List.mem_singleton.mp member ▸ admits

theorem admitsUndefined_unionOf {ts : List TypeExpr} {u : TypeExpr} (united : unionOf ts = .ok u)
    (admits : u.admitsUndefined = true) : ∃ t ∈ ts, t.admitsUndefined = true := by
  have found : ∃ k ∈ distinctMembers ts, k.admitsUndefined = true := by
    rcases (unionOf_ok united).2 with single | form
    · exact ⟨u, by simp [single], admits⟩
    · rw [form] at admits
      exact someAdmitUndefined_iff.mp admits
  obtain ⟨k, kept, admits⟩ := found
  obtain ⟨t, listed, part⟩ := List.mem_flatMap.mp ((keepFirst_spec same _).2 k kept)
  exact ⟨t, listed, admitsUndefined_of_member part admits⟩

theorem admitsUndefined_oneOf {ts : List TypeExpr} {u : TypeExpr} (united : oneOf ts = .ok u)
    (admits : u.admitsUndefined = true) : ∃ t ∈ ts, t.admitsUndefined = true := by
  match ts, united with
  | [], united => exact admitsUndefined_unionOf (show unionOf [] = .ok u from united) admits
  | [t], united =>
    cases united
    exact ⟨u, by simp, admits⟩
  | _ :: _ :: _, united => exact admitsUndefined_unionOf united admits

theorem admitsUndefined_literalOf {tag : Nat} {values : List Value}
    (admits : (literalOf tag values).admitsUndefined = true) :
    ∃ c ∈ values, c.isUndefined = true := by
  unfold literalOf at admits
  split at admits
  · exact List.any_eq_true.mp admits
  · obtain ⟨c, kept, absent⟩ := List.any_eq_true.mp admits
    exact ⟨c, (keepFirst_spec Value.sameTyped values).2 c kept, absent⟩

end TypeExpr

namespace Shape

open TypeExpr

theorem leading_admits_undefined {s : Shape} (builtin : s.Every Builtin) {t : TypeExpr}
    (typed : s.typeExpr = .ok t) (admits : t.admitsUndefined = true) :
    s.leading.Admits .undefined := by
  induction s using treeInduction generalizing t with
  | atomic k =>
    cases typed
    cases k with
    | undefined => rfl
    | _ => cases admits
  | literal tag candidates =>
    obtain ⟨_, _, same⟩ := except_bind_ok_iff.mp typed
    cases same
    split at admits
    · cases admits
    · obtain ⟨c, member, absent⟩ := admitsUndefined_literalOf admits
      rw [Value.isUndefined_iff] at absent
      subst absent
      exact ⟨.undefined, member, rfl, rfl⟩
  | optional base ih => exact Or.inl rfl
  | nullable base ih =>
    obtain ⟨u, inner, united⟩ := except_bind_ok_iff.mp typed
    obtain ⟨w, member, admits⟩ := admitsUndefined_unionOf united admits
    rcases List.mem_pair.mp member with rfl | rfl
    · exact Or.inr (ih (builtin.at_child (by simp [children])) inner admits)
    · cases admits
  | array item ih | record item ih | tuple ss ih =>
    obtain ⟨_, _, same⟩ := except_bind_ok_iff.mp typed
    cases same
    cases admits
  | either left right ihLeft ihRight =>
    obtain ⟨u, first, rest⟩ := except_bind_ok_iff.mp typed
    obtain ⟨w, second, united⟩ := except_bind_ok_iff.mp rest
    obtain ⟨x, member, admits⟩ := admitsUndefined_oneOf united admits
    rcases List.mem_pair.mp member with rfl | rfl
    · exact Or.inl (ihLeft (builtin.at_child (by simp [children])) first admits)
    · exact Or.inr (ihRight (builtin.at_child (by simp [children])) second admits)
  | anyOf ss ih =>
    obtain ⟨us, types, united⟩ := typeExpr_anyOf typed
    obtain ⟨u, member, admits⟩ := admitsUndefined_oneOf united admits
    obtain ⟨s, listed, inner⟩ := exists_related (List.Forall₂.flip (typeExprs_ok types)) member
    rw [leading, leadings_eq_map, Admits, admitsSome_iff]
    exact ⟨s.leading, List.mem_map_of_mem listed, ih s listed (builtin.at_child listed) inner admits⟩
  | both left right ihLeft ihRight =>
    obtain ⟨u, first, rest⟩ := except_bind_ok_iff.mp typed
    obtain ⟨_, _, same⟩ := except_bind_ok_iff.mp rest
    cases same
    exact ihLeft (builtin.at_child (by simp [children])) first admits
  | merge tag left right ihLeft ihRight =>
    obtain ⟨u, first, rest⟩ := except_bind_ok_iff.mp typed
    obtain ⟨w, second, same⟩ := except_bind_ok_iff.mp rest
    cases same
    unfold TypeExpr.merge at admits
    split at admits
    · cases admits
    · exact ihLeft (builtin.at_child (by simp [children])) first admits
  | refined base refine ih => exact builtin.at_root.elim
  | custom own type => exact builtin.at_root.elim
  | struct tag closed fields ih =>
    obtain ⟨types, _, built⟩ := except_bind_ok_iff.mp typed
    obtain ⟨layout, rfl, _⟩ := structOf_ok built
    cases admits

def Structural : Shape → Prop
  | .struct .. => True
  | .both left right => Structural left ∧ Structural right
  | .merge _ left right => Structural left ∧ Structural right
  | _ => False
termination_by structural s => s

/-- The shapes that the structs in a conjunction declare for a field. -/
def declaredAs (k : String) : Shape → List Shape
  | .struct _ _ fields => (fields.filter fun field => field.1 == k).map (·.2)
  | .both left right => declaredAs k left ++ declaredAs k right
  | .merge _ left right => declaredAs k left ++ declaredAs k right
  | _ => []
termination_by structural s => s

theorem mem_declaredAs_struct {tag : Nat} {closed : Bool} {fields : List (String × Shape)}
    {k : String} {d : Shape} :
    d ∈ (struct tag closed fields).declaredAs k ↔ ∃ field ∈ fields, field.1 = k ∧ field.2 = d := by
  rw [declaredAs, List.mem_map]
  constructor
  · rintro ⟨field, kept, same⟩
    obtain ⟨member, named⟩ := List.mem_filter.mp kept
    exact ⟨field, member, by simpa using named, same⟩
  · rintro ⟨field, member, named, same⟩
    exact ⟨field, List.mem_filter.mpr ⟨member, by simpa using named⟩, same⟩

theorem struct_accepts_iff {tag : Nat} {closed : Bool} {fields : List (String × Shape)}
    {v : Value} {c : Container} (opened : v.container? = some c) :
    (struct tag closed fields).Accepts v ↔
      (∀ field ∈ fields, ∃ x, c.lookup field.1 = .ok x ∧ field.2.Accepts x) ∧
      (closed = true → ∀ part ∈ c.labelled,
        ∃ segment, part.1 = .ok segment ∧ (fields.map (·.1)).any segment.isName) := by
  unfold Accepts
  rw [check]
  simp only [opened]
  rw [Check.andThen_accept_iff, checkFields_accept_iff]
  apply and_congr_right
  intro _
  cases closed with
  | false => simp
  | true => simp only [if_true, checkDeclared_accept_iff, true_implies]

theorem struct_accepts_without_iff {tag : Nat} {closed : Bool} {fields : List (String × Shape)}
    (builtin : (struct tag closed fields).Every Builtin) {t : TypeExpr}
    (typed : (struct tag closed fields).typeExpr = .ok t) {v : Value} {es : List (Key × Value)}
    (opened : v.container? = some (.map es)) (accepted : (struct tag closed fields).Accepts v)
    (k : String) : (struct tag closed fields).Accepts (v.without k) ↔
      ∀ field ∈ fields, field.1 = k → field.2.Admits .undefined := by
  have settled : ∀ field ∈ fields, field.2.Accepts .undefined ↔ field.2.Admits .undefined := by
    intro field member
    have child : field.2 ∈ (struct tag closed fields).children := field_child member
    obtain ⟨u, built⟩ := typeExpr_child typed child
    exact accepts_undefined_iff (builtin.at_child child) built
  rw [struct_accepts_iff opened] at accepted
  rw [struct_accepts_iff (Value.container?_without opened k)]
  obtain ⟨passed, declared⟩ := accepted
  constructor
  · rintro ⟨kept, _⟩ field member rfl
    obtain ⟨x, looked, accepts⟩ := kept field member
    rw [Container.lookup_without_self] at looked
    cases looked
    exact (settled field member).mp accepts
  · intro absent
    constructor
    · intro field member
      by_cases named : field.1 = k
      · rw [named, Container.lookup_without_self]
        exact ⟨.undefined, rfl, (settled field member).mpr (absent field member named)⟩
      · rw [Container.lookup_without_other named]
        exact passed field member
    · intro closed part member
      exact declared closed part (Container.labelled_without.subset member)

/-- A conjunction of structs accepts a map without a field exactly where every operand that
    declares it can do without. -/
theorem accepts_without_iff {s : Shape} (structural : s.Structural) (builtin : s.Every Builtin)
    {t : TypeExpr} (typed : s.typeExpr = .ok t) {v : Value} {es : List (Key × Value)}
    (opened : v.container? = some (.map es)) (accepted : s.Accepts v) (k : String) :
    s.Accepts (v.without k) ↔ ∀ d ∈ s.declaredAs k, d.Admits .undefined := by
  induction s using treeInduction generalizing t with
  | struct tag closed fields ih =>
    rw [struct_accepts_without_iff builtin typed opened accepted]
    constructor
    · intro absent d declared
      obtain ⟨field, member, named, rfl⟩ := mem_declaredAs_struct.mp declared
      exact absent field member named
    · intro absent field member named
      exact absent field.2 (mem_declaredAs_struct.mpr ⟨field, member, named, rfl⟩)
  | both left right ihLeft ihRight | merge tag left right ihLeft ihRight =>
    have first : left ∈ (both left right).children := by simp [children]
    have second : right ∈ (both left right).children := by simp [children]
    obtain ⟨u, leftTyped⟩ := typeExpr_child typed first
    obtain ⟨w, rightTyped⟩ := typeExpr_child typed second
    obtain ⟨leftAccepts, rightAccepts⟩ := Check.andThen_accept_iff.mp accepted
    have left_iff := ihLeft structural.1 (builtin.at_child first) leftTyped leftAccepts
    have right_iff := ihRight structural.2 (builtin.at_child second) rightTyped rightAccepts
    rw [declaredAs, List.forall_mem_append, ← left_iff, ← right_iff]
    exact Check.andThen_accept_iff
  | _ => exact structural.elim

theorem structural_type {s : Shape} (structural : s.Structural) {t : TypeExpr}
    (typed : s.typeExpr = .ok t) : ∃ tag layout, t = .struct tag layout := by
  induction s using treeInduction generalizing t with
  | struct tag closed fields ih =>
    obtain ⟨types, _, built⟩ := except_bind_ok_iff.mp typed
    obtain ⟨layout, form, _⟩ := structOf_ok built
    exact ⟨tag, layout, form⟩
  | both left right ihLeft ihRight =>
    obtain ⟨u, first, rest⟩ := except_bind_ok_iff.mp typed
    obtain ⟨_, _, same⟩ := except_bind_ok_iff.mp rest
    cases same
    exact ihLeft structural.1 first
  | merge tag left right ihLeft ihRight =>
    obtain ⟨u, first, rest⟩ := except_bind_ok_iff.mp typed
    obtain ⟨w, second, same⟩ := except_bind_ok_iff.mp rest
    cases same
    obtain ⟨_, _, rfl⟩ := ihLeft structural.1 first
    obtain ⟨_, _, rfl⟩ := ihRight structural.2 second
    exact ⟨_, _, rfl⟩
  | _ => exact structural.elim

theorem optional_declared {s : Shape} (structural : s.Structural) (builtin : s.Every Builtin)
    {tag : Nat} {layout : Layout} (typed : s.typeExpr = .ok (.struct tag layout)) {k : String}
    {u : TypeExpr} (optional : (k, u, false) ∈ layout) :
    ∃ d ∈ s.declaredAs k, d.leading.Admits .undefined := by
  induction s using treeInduction generalizing tag layout with
  | struct own closed fields ih =>
    obtain ⟨types, typedFields, built⟩ := except_bind_ok_iff.mp typed
    obtain ⟨_, same, laid⟩ := structOf_ok built
    cases same
    obtain ⟨type, listed, field⟩ := exists_related (List.Forall₂.flip laid) optional
    obtain ⟨field', declared, named, inner⟩ :=
      exists_related (List.Forall₂.flip (fieldTypes_ok typedFields)) listed
    unfold layoutField at field
    split at field
    · rename_i admits
      obtain ⟨_, _, same⟩ := except_bind_ok_iff.mp field
      cases same
      refine ⟨field'.2, mem_declaredAs_struct.mpr ⟨field', declared, named.symm, rfl⟩, ?_⟩
      exact leading_admits_undefined (builtin.at_child (field_child declared)) inner admits
    · cases field
  | both left right ihLeft ihRight =>
    obtain ⟨_, first, rest⟩ := except_bind_ok_iff.mp typed
    obtain ⟨_, _, same⟩ := except_bind_ok_iff.mp rest
    cases same
    obtain ⟨d, declared, admits⟩ :=
      ihLeft structural.1 (builtin.at_child (by simp [children])) first optional
    exact ⟨d, List.mem_append_left _ declared, admits⟩
  | merge own left right ihLeft ihRight =>
    obtain ⟨_, first, rest⟩ := except_bind_ok_iff.mp typed
    obtain ⟨_, second, same⟩ := except_bind_ok_iff.mp rest
    obtain ⟨_, _, rfl⟩ := structural_type structural.1 first
    obtain ⟨_, _, rfl⟩ := structural_type structural.2 second
    cases same
    rcases mem_mergeLayouts optional with inLeft | inRight
    · obtain ⟨d, declared, admits⟩ :=
        ihLeft structural.1 (builtin.at_child (by simp [children])) first inLeft
      exact ⟨d, List.mem_append_left _ declared, admits⟩
    · obtain ⟨d, declared, admits⟩ :=
        ihRight structural.2 (builtin.at_child (by simp [children])) second inRight
      exact ⟨d, List.mem_append_right _ declared, admits⟩
  | _ => exact structural.elim

end Shape

theorem Schema.optionalFields_ok {s : Schema} {names : List String}
    (optional : s.optionalFields = .ok names) : ∃ tag layout, s.type = .struct tag layout ∧
      ∀ k ∈ names, ∃ t, (k, t, false) ∈ layout := by
  obtain ⟨layout, fields, same⟩ := except_bind_ok_iff.mp optional
  cases same
  obtain ⟨tag, form⟩ := Schema.structFields_ok fields
  refine ⟨tag, layout, form, ?_⟩
  intro k listed
  obtain ⟨⟨name, t, required⟩, kept, rfl⟩ := List.mem_map.mp listed
  obtain ⟨member, absent⟩ := List.mem_filter.mp kept
  cases required with
  | false => exact ⟨t, member⟩
  | true => cases absent

/-- A conjunction of structs that accepts a map accepts it without a field exactly where every
    shape declared for the field admits the undefined value. Where the type says that the
    field is optional, the leading part of one of these shapes does, so one declaration that
    is all of it a leading part is enough for the field to be absent. -/
theorem accepted_without_optional_field (s : Schema) (builtin : s.shape.Every Shape.Builtin)
    (structural : s.shape.Structural) {names : List String}
    (optional : s.optionalFields = .ok names) {k : String} (listed : k ∈ names) {v : Value}
    {es : List (Key × Value)} (opened : v.container? = some (.map es))
    (accepted : (s.validate v).result = .ok (.ok v)) :
    ((s.validate (v.without k)).result = .ok (.ok (v.without k)) ↔
      ∀ d ∈ s.shape.declaredAs k, d.Admits .undefined) ∧
    (∃ d ∈ s.shape.declaredAs k, d.leading.Admits .undefined) ∧
    (∀ d, s.shape.declaredAs k = [d] → d.leading = d →
      (s.validate (v.without k)).result = .ok (.ok (v.without k))) := by
  have accepts : ∀ w, (s.validate w).result = .ok (.ok w) ↔ s.shape.Accepts w := by
    intro w
    rw [Schema.validate_accept_iff, and_iff_left rfl]
  rw [accepts] at accepted ⊢
  have without_iff := Shape.accepts_without_iff structural builtin s.typed opened accepted k
  obtain ⟨tag, layout, form, fields⟩ := Schema.optionalFields_ok optional
  obtain ⟨t, member⟩ := fields k listed
  have promised := Shape.optional_declared structural builtin (form ▸ s.typed) member
  refine ⟨without_iff, promised, ?_⟩
  intro d single whole
  obtain ⟨d', declared, admits⟩ := promised
  rw [single, List.mem_singleton] at declared
  subst declared
  rw [without_iff, single, List.forall_mem_singleton, ← whole]
  exact admits

def twiceOptional : Schema where
  shape := .merge 2 (.struct 0 true [("a", .optional (.atomic .string)), ("b", .atomic .number)])
    (.struct 1 false [("a", .nullable (.literal 3 [.text "x", .undefined]))])
  type := .struct 2 [("a", .text, false), ("b", .union [.int, .float], true)]
  typed := rfl

theorem twiceOptional_without :
    (twiceOptional.validate (.dict [(.scalar (.text "b"), .int 1)])).result =
      .ok (.ok (.dict [(.scalar (.text "b"), .int 1)])) := by
  have leaf : ∀ k, (Shape.atomic k).Every Shape.Builtin := fun k => .leaf trivial rfl
  have builtin : twiceOptional.shape.Every Shape.Builtin := by
    refine .node trivial (List.forall_mem_cons.mpr ⟨?_, List.forall_mem_singleton.mpr ?_⟩)
    · refine .node trivial (List.forall_mem_cons.mpr ⟨?_, List.forall_mem_singleton.mpr ?_⟩)
      · exact .node trivial (List.forall_mem_singleton.mpr (leaf .string))
      · exact leaf .number
    · refine .node trivial (List.forall_mem_singleton.mpr ?_)
      exact .node trivial (List.forall_mem_singleton.mpr (.leaf trivial rfl))
  have optional : twiceOptional.optionalFields = .ok ["a"] := rfl
  have accepted : (twiceOptional.validate
        (.dict [(.scalar (.text "a"), .text "x"), (.scalar (.text "b"), .int 1)])).result =
      .ok (.ok (.dict [(.scalar (.text "a"), .text "x"), (.scalar (.text "b"), .int 1)])) := rfl
  have remains := accepted_without_optional_field twiceOptional builtin ⟨trivial, trivial⟩
    optional (List.mem_singleton.mpr rfl) rfl accepted
  refine remains.1.mpr ?_
  intro d declared
  rcases List.mem_pair.mp declared with rfl | rfl
  · exact Or.inl rfl
  · exact Or.inr ⟨.undefined, by simp, rfl, rfl⟩

def requiredOnTheRight : Schema where
  shape := .both (.struct 0 false [("a", .optional (.atomic .string))])
    (.struct 1 false [("a", .atomic .string)])
  type := .struct 0 [("a", .text, false)]
  typed := rfl

/-- The type of a conjunction does not see that its right operand requires a field. -/
theorem optional_field_required :
    ¬ ∀ (s : Schema) (names : List String) (k : String) (v : Value) (es : List (Key × Value)),
      s.shape.Every Shape.Builtin → s.shape.Structural → s.optionalFields = .ok names →
        k ∈ names → v.container? = some (.map es) → (s.validate v).result = .ok (.ok v) →
          (s.validate (v.without k)).result = .ok (.ok (v.without k)) := by
  intro always
  have leaf : (Shape.atomic .string).Every Shape.Builtin := .leaf trivial rfl
  have builtin : requiredOnTheRight.shape.Every Shape.Builtin := by
    refine .node trivial (List.forall_mem_cons.mpr ⟨?_, List.forall_mem_singleton.mpr ?_⟩)
    · refine .node trivial (List.forall_mem_singleton.mpr ?_)
      exact .node trivial (List.forall_mem_singleton.mpr leaf)
    · exact .node trivial (List.forall_mem_singleton.mpr leaf)
  have accepted := always requiredOnTheRight ["a"] "a" (.dict [(.scalar (.text "a"), .text "x")])
    [(.scalar (.text "a"), .text "x")] builtin ⟨trivial, trivial⟩ rfl (List.mem_singleton.mpr rfl)
    rfl rfl
  cases accepted

end Conform
