import Conform.Proofs.Described
import Conform.Proofs.Merging
import Conform.Proofs.Serialising

/-!
The message of a literal that is refused. Candidates are compared by kind and value, and the
message has their descriptions. Of one kind, what is described alike is equal, and what is
equal is described alike: a number by what its description is read as, a longer integer
by its digits. So no candidate of its kind is described as the refused value is.
-/
namespace Conform

open Binary64 Json

theorem Binary64.value_of_same {x y : Binary64} (same : x.same y = true)
    (finite : x.isFinite = true) : ∃ q, x.toRat? = some q ∧ y.toRat? = some q := by
  cases x with
  | nan | infinite => cases finite
  | finite negative m e canonical =>
    obtain ⟨q, value⟩ := toRat?_finite negative canonical
    cases other : y.toRat? with
    | none => simp [Binary64.same, value, other] at same
    | some p =>
      simp only [Binary64.same, value, other, beq_iff_eq] at same
      exact ⟨q, value, congrArg some same.symm⟩

theorem Binary64.toInt?_of_sameInt {x : Binary64} {n : Int} (same : x.sameInt n = true) :
    x.toInt? = some n := by
  apply toInt?_iff.mpr
  simpa only [sameInt, beq_iff_eq] using same

namespace Scalar

variable {a b : Scalar}

/-- What literals are made of: integers not too long to be written, numbers that are finite. -/
def IsLiteral : Scalar → Prop
  | .undefined | .null | .bool _ | .text _ => True
  | .int n => ShortInteger n
  | .float x => x.isFinite = true
  | _ => False

theorem IsLiteral.cases (literal : a.IsLiteral) :
    a = .undefined ∨ a.IsJson ∨ ∃ n, a = .int n ∧ ShortInteger n ∧ maxSafeInteger < n.natAbs := by
  cases a with
  | undefined => exact Or.inl rfl
  | null | bool | text => exact Or.inr (Or.inl trivial)
  | float x => exact Or.inr (Or.inl literal)
  | int n =>
    right
    by_cases safe : n.natAbs ≤ maxSafeInteger
    · exact Or.inl safe
    · exact Or.inr ⟨n, rfl, literal, Nat.lt_of_not_le safe⟩
  | _ => cases literal

theorem reread_of_whole {x : Binary64} {n : Int} (whole : x.toInt? = some n)
    (safe : n.natAbs ≤ maxSafeInteger) : (float x).reread = .int n := by
  rw [reread, whole]
  exact if_pos safe

theorem reread_of_same_float {x y : Binary64} (same : x.same y = true)
    (finite : x.isFinite = true) : (float x).reread = (float y).reread := by
  obtain ⟨q, left, right⟩ := value_of_same same finite
  by_cases zero : q = 0
  · subst zero
    have whole : ∀ z : Binary64, z.toRat? = some 0 → (float z).reread = .int 0 := by
      intro z value
      exact reread_of_whole (toInt?_iff.mpr value) (Nat.zero_le _)
    rw [whole x left, whole y right]
  · rw [eq_of_value left right zero]

theorem IsJson.kind_eq (json : a.IsJson) : a.kind = match a with
    | .null => .null
    | .bool _ => .boolean
    | .text _ => .string
    | _ => .number := by
  cases a with
  | int n => exact if_pos json
  | null | bool | text | float => rfl
  | _ => cases json

theorem reread_of_same (json : a.IsJson) (json' : b.IsJson) (kind : a.kind = b.kind)
    (same : a.same b = true) : a.reread = b.reread := by
  rw [json.kind_eq, json'.kind_eq] at kind
  cases a with
  | float x =>
    cases b with
    | float y => exact reread_of_same_float same json
    | int n => exact reread_of_whole (toInt?_of_sameInt same) json'
    | null | bool | text => cases kind
    | _ => cases json'
  | int n =>
    cases b with
    | float y => exact (reread_of_whole (toInt?_of_sameInt same) json).symm
    | int m =>
      have equal : n = m := eq_of_beq same
      rw [equal]
    | null | bool | text => cases kind
    | _ => cases json'
  | null =>
    cases b with
    | null => rfl
    | _ => cases kind
  | bool p =>
    cases b with
    | bool q => cases p <;> cases q <;> first | rfl | cases same
    | _ => cases kind
  | text s =>
    cases b with
    | text t =>
      have equal : s = t := eq_of_beq same
      rw [equal]
    | _ => cases kind
  | _ => cases json

end Scalar

namespace Json

variable {a b : Scalar} {text : List Char}

theorem describe_scalar (present : a ≠ .undefined)
    (written : writeScalar descriptive a = .ok text) :
    describe (.scalar a) = .ok (String.ofList text) := by
  have shown : (Value.scalar a).isUndefined = false := by
    cases a <;> first | rfl | exact absurd rfl present
  unfold describe
  rw [shown, write, written]
  rfl

theorem writeScalar_int {n : Int} (short : ShortInteger n) :
    writeScalar descriptive (.int n) =
      .ok (signed (n < 0) (Nat.toDigits 10 n.natAbs)) := by
  obtain ⟨text, written⟩ := exists_integer_iff.mpr short
  rw [← integer_ok written]
  exact written

/-- What is read of a description is described by the same text. -/
theorem writeScalar_reread (a : Scalar) :
    writeScalar descriptive a.reread = writeScalar descriptive a := by
  cases a with
  | float x =>
    rcases Scalar.reread_float x with ⟨n, whole, safe, same⟩ | ⟨_, same⟩
    · have small : n.natAbs < exponentThreshold := Nat.lt_of_le_of_lt safe (by decide)
      have short : ShortInteger n := exists_integer_iff.mp (integer_safe safe)
      rw [same, writeScalar_int short, ← shownFloat_of_whole whole small]
      rfl
    · rw [same]
  | _ => rfl

theorem signed_toDigits_injective {m n : Int}
    (alike : signed (m < 0) (Nat.toDigits 10 m.natAbs) =
      signed (n < 0) (Nat.toDigits 10 n.natAbs)) : m = n := by
  have boundary : Boundary [] := by
    intro c head
    cases head
  have first := numeral?_integerLiteral (m < 0) (wholePart_toDigits m.natAbs) boundary.endsInteger
  have second := numeral?_integerLiteral (n < 0) (wholePart_toDigits n.natAbs) boundary.endsInteger
  rw [List.append_nil] at first second
  rw [alike, second] at first
  simp only [Option.some.injEq, Prod.mk.injEq, Numeral.mk.injEq] at first
  rw [← signedInteger_toDigits m, ← signedInteger_toDigits n, first.1.1, first.1.2.1]

end Json

namespace Scalar

variable {a b : Scalar}

theorem IsLiteral.described (literal : a.IsLiteral) :
    ∃ shown, describe (.scalar a) = .ok shown := by
  rcases literal.cases with absent | json | ⟨n, integer, short, _⟩
  · subst absent
    exact ⟨_, rfl⟩
  · obtain ⟨shown, described, _⟩ := describe_of_isJson (.scalar json) (Nat.zero_le nestingLimit)
    exact ⟨shown, described⟩
  · subst integer
    exact ⟨_, describe_scalar (by simp) (writeScalar_int short)⟩

theorem IsJson.same_iff (json : a.IsJson) (json' : b.IsJson) (kind : a.kind = b.kind) :
    a.same b = true ↔ describe (.scalar a) = describe (.scalar b) := by
  have present : ∀ c : Scalar, c.IsJson → c ≠ .undefined := by
    intro c json absent
    subst absent
    cases json
  obtain ⟨text, written⟩ := Scalar.IsDecoded.written (Or.inl json)
  obtain ⟨text', written'⟩ := Scalar.IsDecoded.written (Or.inl json')
  constructor
  · -- what is described is what both are read back as
    intro same
    have texts := writeScalar_reread a
    rw [reread_of_same json json' kind same, writeScalar_reread b] at texts
    rw [describe_scalar (present a json) written]
    exact (describe_scalar (present b json') (texts.trans written)).symm
  · intro alike
    obtain ⟨shown, described, read⟩ := describe_of_isJson (.scalar json) (Nat.zero_le nestingLimit)
    obtain ⟨shown', described', read'⟩ :=
      describe_of_isJson (.scalar json') (Nat.zero_le nestingLimit)
    rw [described, described'] at alike
    cases alike
    have texts := (read false).symm.trans (read' false)
    injection texts with texts
    injection texts with texts
    injection texts with texts
    exact same_of_reread json json' texts

theorem IsLiteral.same_iff (literal : a.IsLiteral) (literal' : b.IsLiteral)
    (kind : a.kind = b.kind) :
    a.same b = true ↔ describe (.scalar a) = describe (.scalar b) := by
  have plain : ∀ c : Scalar, c.IsJson → c.kind ≠ .bigint ∧ c.kind ≠ .undefined := by
    intro c json
    obtain ⟨short, _, present⟩ := Scalar.IsDecoded.kind (Or.inl json)
    exact ⟨short, present⟩
  have big : ∀ n : Int, maxSafeInteger < n.natAbs → (int n).kind = .bigint := by
    intro n long
    exact if_neg (Nat.not_le.mpr long)
  rcases literal.cases with absent | json | ⟨n, integer, short, long⟩
  · subst absent
    have absent : Value.scalar b = .undefined := TypeExpr.eq_undefined_of_kind kind.symm
    cases absent
    exact iff_of_true rfl rfl
  · rcases literal'.cases with absent | json' | ⟨m, integer, _, long⟩
    · subst absent
      exact absurd kind (plain a json).2
    · exact json.same_iff json' kind
    · subst integer
      exact absurd (kind.trans (big m long)) (plain a json).1
  · subst integer
    rw [big n long] at kind
    rcases literal'.cases with absent | json' | ⟨m, integer, short', _⟩
    · subst absent
      cases kind
    · exact absurd kind.symm (plain b json').1
    · subst integer
      rw [describe_scalar (by simp) (writeScalar_int short),
        describe_scalar (by simp) (writeScalar_int short')]
      constructor
      · intro same
        have equal : n = m := eq_of_beq same
        rw [equal]
      · intro alike
        injection alike with alike
        have equal : n = m := signed_toDigits_injective (String.ofList_injective alike)
        rw [equal]
        exact beq_self_eq_true m

end Scalar

theorem exists_descriptions {candidates : List Scalar}
    (listed : ∀ c ∈ candidates, c.IsLiteral) :
    ∃ texts, (candidates.map Value.scalar).mapM describe = .ok texts := by
  induction candidates with
  | nil => exact ⟨[], rfl⟩
  | cons c cs ih =>
    rw [List.forall_mem_cons] at listed
    obtain ⟨text, first⟩ := listed.1.described
    obtain ⟨texts, rest⟩ := ih listed.2
    rw [List.map_cons, List.mapM_cons, first, rest]
    exact ⟨text :: texts, rfl⟩

theorem Shape.checkLiteral_result {candidates : List Value} {v : Value} {found : Bool}
    {texts : List String} {shown : String} (searched : someEqual v candidates = .ok found)
    (described : candidates.mapM describe = .ok texts) (got : describe v = .ok shown) :
    (checkLiteral candidates v).result = .ok (if found then .accept else
      .reject (.of (.expected ("one of " ++ ", ".intercalate texts) shown))) := by
  unfold checkLiteral Check.expect expectation
  rw [searched, described, got]
  cases found <;> rfl

namespace Schema

theorem literal_run {candidates : List Value} {texts : List String}
    (described : candidates.mapM describe = .ok texts) (tag : Nat) :
    ∃ s : Schema, (literal candidates).run tag = .ok (s, tag + 1) ∧
      s.shape = .literal tag candidates := by
  have expected : Shape.expectation candidates = .ok ("one of " ++ ", ".intercalate texts) := by
    rw [Shape.expectation, described]
    rfl
  have typed : (Shape.literal tag candidates).typeExpr =
      .ok (if candidates.isEmpty then .any else TypeExpr.literalOf tag candidates) := by
    rw [Shape.typeExpr, expected]
    rfl
  refine ⟨⟨_, _, typed⟩, ?_, rfl⟩
  change StateT.lift (of (.literal tag candidates)) (tag + 1) = _
  rw [of_typed ⟨_, _, typed⟩]
  rfl

end Schema

/-- A literal takes a value if and only if a candidate of its kind is described as the value is. A
    refusal lists the descriptions in order, and those of the candidates of that kind all differ
    from that of the value. -/
theorem literal_refusal {candidates : List Scalar} {a : Scalar}
    (listed : ∀ c ∈ candidates, c.IsLiteral) (given : a.IsLiteral) (tag : Nat) :
    ∃ s texts shown,
      (Schema.literal (candidates.map .scalar)).run tag = .ok (s, tag + 1) ∧
      List.Forall₂ (fun c text => describe (.scalar c) = .ok text) candidates texts ∧
      describe (.scalar a) = .ok shown ∧
      ((s.validate (.scalar a)).result = .ok (.ok (.scalar a)) ↔
        ∃ c ∈ candidates, c.kind = a.kind ∧ describe (.scalar c) = .ok shown) ∧
      ((s.validate (.scalar a)).result = .ok (.ok (.scalar a)) ∨
        ∃ e, (s.validate (.scalar a)).result = .ok (.error e) ∧ e.path = [] ∧
          e.message = "Expected one of " ++ ", ".intercalate texts ++ ", got " ++ shown ∧
          ∀ p ∈ candidates.zip texts, p.1.kind = a.kind → p.2 ≠ shown) := by
  obtain ⟨texts, texted⟩ := exists_descriptions listed
  obtain ⟨shown, got⟩ := given.described
  obtain ⟨s, built, shaped⟩ := Schema.literal_run texted tag
  have each := List.forall₂_map_left_iff.mp (forall₂_of_mapM texted)
  have scalars : ∀ c ∈ candidates.map Value.scalar, ∃ b, c = .scalar b := by simp
  obtain ⟨found, searched⟩ := Shape.someEqual_ok (.scalar a) scalars
  have met : found = true ↔
      ∃ c ∈ candidates, c.kind = a.kind ∧ describe (.scalar c) = .ok shown := by
    rw [Shape.someEqual_decides searched]
    simp only [List.mem_map, exists_exists_and_eq_and]
    apply exists_congr
    intro c
    apply and_congr_right
    intro member
    apply and_congr_right
    intro kind
    rw [← got, ← (listed c member).same_iff given kind]
    exact ⟨Except.ok.inj, congrArg Except.ok⟩
  have ending := Shape.checkLiteral_result searched texted got
  have accepted : (s.validate (.scalar a)).result = .ok (.ok (.scalar a)) ↔ found = true := by
    rw [Schema.validate_accept_iff, Shape.Accepts, shaped, Shape.check, ending]
    cases found <;> simp
  refine ⟨s, texts, shown, built, each, got, accepted.trans met, ?_⟩
  cases found with
  | true =>
    left
    exact accepted.mpr rfl
  | false =>
    right
    rw [Schema.result_validate, shaped, Shape.check, ending]
    refine ⟨_, rfl, rfl, ?_, ?_⟩
    · change "Expected " ++ ("one of " ++ ", ".intercalate texts) ++ ", got " ++ shown = _
      rw [← String.append_assoc]
      rfl
    · intro p listed' kind same
      apply Bool.false_ne_true
      apply met.mpr
      have described := List.forall₂_iff_zip.mp each
      refine ⟨p.1, (List.of_mem_zip listed').1, kind, ?_⟩
      rw [← same]
      exact described.2 listed'

def powers : List Scalar := [.int (10 ^ 21), .text "1e+21", .float pastSafe]

theorem powers_refuse :
    ∃ s e, (Schema.literal (powers.map .scalar)).run 0 = .ok (s, 1) ∧
      (s.validate (.scalar (.float exponential))).result = .ok (.error e) ∧
      e.message =
        "Expected one of 1000000000000000000000, \"1e+21\", 9007199254740992, got 1e+21" := by
  have listed : ∀ c ∈ powers, c.IsLiteral := by
    intro c member
    simp only [powers, List.mem_cons, List.not_mem_nil, or_false] at member
    rcases member with rfl | rfl | rfl
    · change (Nat.toDigits 10 (10 ^ 21 : Int).natAbs).length ≤ digitLimit
      decide +kernel
    · trivial
    · rfl
  have integer : describe (.scalar (.int (10 ^ 21))) = .ok "1000000000000000000000" := by
    decide +kernel
  have text : describe (.scalar (.text "1e+21")) = .ok "\"1e+21\"" := by decide +kernel
  have whole : describe (.scalar (.float pastSafe)) = .ok "9007199254740992" := by decide +kernel
  have given : describe (.scalar (.float exponential)) = .ok "1e+21" := by decide +kernel
  obtain ⟨s, texts, shown, built, each, got, accepted, refused⟩ :=
    literal_refusal (a := .float exponential) listed rfl 0
  cases given.symm.trans got
  have written : texts = ["1000000000000000000000", "\"1e+21\"", "9007199254740992"] := by
    rcases each with _ | ⟨first, _ | ⟨second, _ | ⟨third, _ | _⟩⟩⟩
    cases integer.symm.trans first
    cases text.symm.trans second
    cases whole.symm.trans third
    rfl
  rcases refused with taken | ⟨e, failed, _, message, _⟩
  · obtain ⟨c, member, kind, alike⟩ := accepted.mp taken
    simp only [powers, List.mem_cons, List.not_mem_nil, or_false] at member
    rcases member with rfl | rfl | rfl
    · exact absurd (Except.ok.inj (integer.symm.trans alike)) (by decide)
    · cases kind
    · exact absurd (Except.ok.inj (whole.symm.trans alike)) (by decide)
  · refine ⟨s, e, built, failed, ?_⟩
    rw [message, written]
    rfl

end Conform
