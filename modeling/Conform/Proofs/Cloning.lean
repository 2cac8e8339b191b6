import Conform.Proofs.Thawed

/-!
Copies by way of JSON. A copy is the normal form of the value, checked once more,
so it is made wherever the value can be written and its normal form is accepted.
Data that is accepted is copied thawed, unless a declared name that is an index
too long to be read stops the second check.
-/
namespace Conform

namespace Json

variable {allowNaN : Bool} {v : Value}

theorem encodeLogged_result (allowNaN : Bool) (v : Value) :
    (encodeLogged allowNaN v).result = encode allowNaN v := by
  unfold encodeLogged
  generalize encode allowNaN v = encoded
  cases encoded with
  | error fault => rfl
  | ok r =>
    cases r with
    | ok text => rfl
    | error error => cases error <;> rfl

theorem decodeLogged_result (allowNaN : Bool) (source : Value) :
    (decodeLogged allowNaN source).result = decode allowNaN source := by
  unfold decodeLogged
  generalize decode allowNaN source = decoded
  cases decoded with
  | error fault => rfl
  | ok r => cases r <;> rfl

theorem encode_of_isData (allowNaN : Bool) (data : v.IsData) (fits : v.depth ≤ nestingLimit) :
    ∃ text, encode allowNaN v = .ok (.ok text) := by
  obtain ⟨text, written⟩ := write_of_isJson allowNaN data.thawed_isJson
  rw [write_thawed] at written
  rw [encode_acyclic data.isUndefined data.acyclic fits, written]
  exact ⟨_, rfl⟩

end Json

namespace Schema

open Json

variable {s : Schema} {allowNaN : Bool} {v w : Value}

theorem validated_ok_iff :
    (s.validated v).result = .ok (.ok w) ↔ s.shape.Accepts v ∧ w = v := by
  rw [validated, Run.bind_ok_iff]
  constructor
  · rintro ⟨r, checked, rest⟩
    rcases validate_ok_iff.mp checked with ⟨accepted, rfl⟩ | ⟨_, _, _, _, rfl⟩
    · cases rest
      exact ⟨accepted, rfl⟩
    · cases rest
  · rintro ⟨accepted, rfl⟩
    exact ⟨_, validate_ok_iff.mpr (Or.inl ⟨accepted, rfl⟩), rfl⟩

theorem validated_faults {p : Fault → Prop} (faults : FaultsIn p (s.validate v).result) :
    FaultsIn p (s.validated v).result := by
  refine Run.bind_faults faults fun r _ => ?_
  cases r <;> exact faultsIn_ok _

theorem parse_ok_iff {source : Value} :
    (s.parse allowNaN source).result = .ok (.ok w) ↔
      decode allowNaN source = .ok (.ok w) ∧ s.shape.Accepts w := by
  rw [parse, Run.bind_ok_iff, decodeLogged_result]
  constructor
  · rintro ⟨r, decoded, rest⟩
    cases r with
    | error error => cases rest
    | ok v =>
      obtain ⟨accepted, rfl⟩ := validated_ok_iff.mp rest
      exact ⟨decoded, accepted⟩
  · rintro ⟨decoded, accepted⟩
    exact ⟨.ok w, decoded, validated_ok_iff.mpr ⟨accepted, rfl⟩⟩

theorem parse_decoded {source : Value} (decoded : decode allowNaN source = .ok (.ok w)) :
    s.parse allowNaN source = s.validated w := by
  unfold parse decodeLogged
  rw [decoded]
  rfl

theorem clone_of_encoded (s : Schema) {text : String}
    (encoded : encode allowNaN v = .ok (.ok text)) :
    (s.clone allowNaN v).result = (s.validated v.normal).result := by
  have written : (encodeLogged allowNaN v).result = .ok (.ok text) :=
    (encodeLogged_result allowNaN v).trans encoded
  have read : (decodeLogged allowNaN (.text text)).result = .ok (.ok v.normal) :=
    (decodeLogged_result allowNaN (.text text)).trans (decode_encoded encoded)
  rw [clone, Run.result_bind written]
  exact Run.result_bind read _

theorem clone_ok_iff :
    (s.clone allowNaN v).result = .ok (.ok w) ↔
      (∃ text, encode allowNaN v = .ok (.ok text)) ∧ s.shape.Accepts v.normal ∧ w = v.normal := by
  constructor
  · intro cloned
    have whole := cloned
    rw [clone, Run.bind_ok_iff] at whole
    obtain ⟨r, written, rest⟩ := whole
    cases r with
    | error error => cases rest
    | ok text =>
      have encoded := (encodeLogged_result allowNaN v).symm.trans written
      rw [clone_of_encoded s encoded] at cloned
      exact ⟨⟨text, encoded⟩, validated_ok_iff.mp cloned⟩
  · rintro ⟨⟨text, encoded⟩, accepted⟩
    rw [clone_of_encoded s encoded]
    exact validated_ok_iff.mpr accepted

theorem validate_of_admits (admits : s.shape.Admits v) {r : Except ShapeError Value}
    (ending : (s.validate v).result = .ok r) : r = .ok v := by
  rcases validate_ok_iff.mp ending with ⟨_, rfl⟩ | ⟨f, _, rejected, _, _⟩
  · rfl
  · cases (s.shape.check_decides v _ rejected).mpr admits

theorem validated_of_admits (admits : s.shape.Admits v) {r : Except Rejection Value}
    (ending : (s.validated v).result = .ok r) : r = .ok v := by
  rw [validated, Run.bind_ok_iff] at ending
  obtain ⟨checked, valid, rest⟩ := ending
  cases validate_of_admits admits valid
  cases rest
  rfl

end Schema

/-- Accepted data is admitted thawed, and both its copy and what validation makes of the copy
    are the thawed data. Nothing but the known faults of a check can stop this. With declared
    names that can be read, and items no more than can be numbered, it is never stopped. -/
theorem clone_of_accepted_data (s : Schema) (declarative : s.shape.Every Shape.Declarative)
    {v : Value} (data : v.IsData) (fits : v.depth ≤ nestingLimit)
    (accepted : (s.validate v).result = .ok (.ok v)) (allowNaN : Bool) :
    s.shape.Admits v.thawed ∧
      (∀ r, (s.clone allowNaN v).result = .ok r → r = .ok v.thawed) ∧
      (∀ r, (s.validate v.thawed).result = .ok r → r = .ok v.thawed) ∧
      FaultsIn (s.shape.Stops v.thawed) (s.clone allowNaN v).result ∧
      FaultsIn (s.shape.Stops v.thawed) (s.validate v.thawed).result ∧
      (v.Writable → s.shape.NamesReadable →
        (s.clone allowNaN v).result = .ok (.ok v.thawed) ∧
          (s.validate v.thawed).result = .ok (.ok v.thawed)) := by
  have steady := declarative.mono fun _ own => own.steady
  have before := (s.shape.check_decides v _ (Schema.validate_accept_iff.mp accepted).1).mp rfl
  have admits := before.thawed declarative (Or.inr data)
  obtain ⟨text, encoded⟩ := Json.encode_of_isData allowNaN data fits
  have cloned := s.clone_of_encoded encoded
  rw [data.normal] at cloned
  have faults := Schema.validate_faults (s.shape.check_confined steady s.typed v.thawed)
  rw [cloned]
  refine ⟨admits, fun r => Schema.validated_of_admits admits,
    fun r => Schema.validate_of_admits admits, Schema.validated_faults faults, faults,
    fun writable readable => ?_⟩
  have none := Shape.not_stops (data.shallow_thawed fits) writable.thawed readable
  obtain ⟨r, valid⟩ := faults.returns none
  obtain ⟨q, copied⟩ := (Schema.validated_faults faults).returns none
  rw [valid, copied, Schema.validate_of_admits admits valid,
    Schema.validated_of_admits admits copied]
  exact ⟨rfl, rfl⟩

def rows : Schema where
  shape := .array (.record (.optional (.atomic .string)))
  type := .list (.record (.union [.text, .undefined]))
  typed := rfl

def frozenRow : Value :=
  .tuple [.map none .frozen ([("a", .text "x"), ("b", .undefined)].map Value.named)]

theorem every_rows {p : Shape → Prop} (array : p rows.shape)
    (record : p (.record (.optional (.atomic .string)))) (optional : p (.optional (.atomic .string)))
    (string : p (.atomic .string)) : rows.shape.Every p := by
  have leaf : (Shape.atomic .string).Every p := .leaf string rfl
  have entry : (Shape.optional (.atomic .string)).Every p :=
    .node optional (List.forall_mem_singleton.mpr leaf)
  exact .node array (List.forall_mem_singleton.mpr
    (.node record (List.forall_mem_singleton.mpr entry)))

theorem frozenRow_isData : frozenRow.IsData := by
  refine .seq (List.forall_mem_singleton.mpr (.map (by decide) fun m member present => ?_))
  rcases List.mem_pair.mp member with rfl | rfl
  · exact .scalar trivial
  · exact absurd rfl present

theorem frozenRow_writable : frozenRow.Writable := by
  have one : ∀ digits, 1 ≤ Nat.pow 10 digits := fun digits => Nat.one_le_pow digits 10 (by decide)
  refine .node (one digitLimit) (List.forall_mem_singleton.mpr (.node ?_ ?_))
  · exact List.forall_mem_cons.mpr ⟨trivial, List.forall_mem_singleton.mpr trivial⟩
  · exact List.forall_mem_cons.mpr
      ⟨.scalar trivial, List.forall_mem_singleton.mpr (.scalar trivial)⟩

theorem frozenRow_copied :
    (rows.validate frozenRow).result = .ok (.ok frozenRow) ∧
      (rows.clone false frozenRow).result =
        .ok (.ok (.list [.dict ([("a", .text "x")].map Value.named)])) := by
  have accepted : (rows.validate frozenRow).result = .ok (.ok frozenRow) := rfl
  have declarative : rows.shape.Every Shape.Declarative := every_rows trivial trivial trivial trivial
  have readable : rows.shape.NamesReadable := every_rows trivial trivial trivial trivial
  have copied := (clone_of_accepted_data rows declarative frozenRow_isData (by decide) accepted
    false).2.2.2.2.2 frozenRow_writable readable
  exact ⟨accepted, copied.1⟩

def overlappingRows (name : String) : Schema where
  shape := .anyOf [.record (.struct 0 false [(name, .optional (.atomic .string))]),
    .record (.optional (.struct 1 false []))]
  type := .union [.record (.struct 0 [(name, .text, false)]),
    .record (.union [.struct 1 [], .undefined])]
  typed := rfl

def halfAbsent : Value := .dict ([("x", .undefined), ("y", .list [])].map Value.named)

theorem overlappingRows_clone_stopped {name : String} {digits : List Char}
    (index : indexDigits? name = some digits) (long : digitLimit < digits.length) :
    ((overlappingRows name).clone false halfAbsent).result =
      .error (.unreadableInteger digits.length) := by
  have looked : (Container.seq []).lookup name = .error (.unreadableInteger digits.length) := by
    simp only [Container.lookup, index, if_pos long]
  have field : (Shape.check (.struct 0 false [(name, .optional (.atomic .string))])
      (.list [])).result = .error (.unreadableInteger digits.length) :=
    Run.bind_stopped (Run.bind_stopped looked _) _
  have first : (Shape.check (.record (.struct 0 false [(name, .optional (.atomic .string))]))
      halfAbsent.normal).result = .error (.unreadableInteger digits.length) :=
    Run.bind_stopped (Run.bind_stopped field _) _
  have checked : ((overlappingRows name).shape.check halfAbsent.normal).result =
      .error (.unreadableInteger digits.length) := Run.bind_stopped first _
  have encoded : Json.encode false halfAbsent = .ok (.ok "\x7b\"y\":[]\x7d") := rfl
  rw [Schema.clone_of_encoded _ encoded]
  exact Run.bind_stopped (Run.bind_stopped (Run.bind_stopped checked _) _) _

def unreadableRows : Schema := overlappingRows (String.ofList (List.replicate (digitLimit + 1) '9'))

/-- Accepted data that is not copied: the first alternative fails on it before it looks up the
    name, but not on its copy. -/
theorem accepted_data_not_copied :
    unreadableRows.shape.Every Shape.Declarative ∧ halfAbsent.IsData ∧
      halfAbsent.depth ≤ nestingLimit ∧
      (unreadableRows.validate halfAbsent).result = .ok (.ok halfAbsent) ∧
      (unreadableRows.clone false halfAbsent).result =
        .error (.unreadableInteger (digitLimit + 1)) := by
  have index := indexDigits?_nines (Nat.succ_pos digitLimit)
  have long : digitLimit < (List.replicate (digitLimit + 1) '9').length := by
    rw [List.length_replicate]
    exact Nat.lt_succ_self digitLimit
  have stopped := overlappingRows_clone_stopped index long
  rw [List.length_replicate] at stopped
  refine ⟨?_, ?_, by decide, rfl, stopped⟩
  · have leaf : (Shape.atomic .string).Every Shape.Declarative := .leaf trivial rfl
    have field : (Shape.optional (.atomic .string)).Every Shape.Declarative :=
      .node trivial (List.forall_mem_singleton.mpr leaf)
    have empty : (Shape.struct 1 false []).Every Shape.Declarative := .leaf trivial rfl
    refine .node trivial (List.forall_mem_cons.mpr ⟨?_, List.forall_mem_singleton.mpr ?_⟩)
    · exact .node trivial (List.forall_mem_singleton.mpr
        (.node trivial (List.forall_mem_singleton.mpr field)))
    · exact .node trivial (List.forall_mem_singleton.mpr
        (.node trivial (List.forall_mem_singleton.mpr empty)))
  · refine .map (by decide) fun m member present => ?_
    rcases List.mem_pair.mp member with rfl | rfl
    · exact absurd rfl present
    · exact .seq fun v inside => by cases inside

end Conform
