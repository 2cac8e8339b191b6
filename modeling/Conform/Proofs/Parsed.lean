import Conform.Proofs.Decoded

/-!
Copies of what was parsed. Reading and writing agree but for one kind of number: a
numeral past the largest number is read as an infinity, which is then not written.
What is parsed without one is copied as it is, whatever the shape checks, as far
as writing follows its nesting.
-/
namespace Conform

def Value.AllFinite (v : Value) : Prop :=
  v.Every fun
    | .scalar (.float x) => x.isFinite = true
    | _ => True

namespace Json

variable {cs : List Char} {v : Value} {allowNaN : Bool}

def Overflows (cs : List Char) : Prop :=
  ∃ rest n left, rest <:+ cs ∧ numeral? rest = some (n, left) ∧
    Binary64.overflowFrom ≤ n.magnitude

theorem FoundIn.json_or_infinite {a : Scalar} (found : FoundIn cs a) :
    a.IsJson ∨ (∃ negative, a = .float (.infinite negative)) ∧ Overflows cs := by
  rcases found with rfl | ⟨b, rfl⟩ | ⟨s, rfl⟩ | ⟨rest, n, left, within, read, rfl⟩
  · exact Or.inl trivial
  · exact Or.inl trivial
  · exact Or.inl trivial
  · exact n.value_json_or_infinite.imp And.left fun ⟨infinite, large⟩ =>
      ⟨infinite, rest, n, left, within, read, large⟩

theorem readText_sound (read : readText false cs = .ok v) : v.IsTree (FoundIn cs) :=
  (readText_reads read).1.mono fun _ leaf => leaf.found

/-- The text of a source, decoded where it comes as octets. -/
def sourceText? (source : Value) : Option (List Char) :=
  match source.text? with
  | some s => some s.toList
  | none => match source with
    | .scalar (.bytes bytes) => (Text.decodeBytes bytes).toOption
    | _ => none

theorem readText_of_decodeText (decoded : decodeText allowNaN cs = .ok (.ok v)) :
    readText allowNaN cs = .ok v := by
  unfold decodeText at decoded
  split at decoded
  · rename_i read
    cases decoded
    exact read
  · cases decoded
  · cases decoded
  · cases decoded

theorem readText_of_decode {source : Value} (decoded : decode allowNaN source = .ok (.ok v)) :
    ∃ cs, sourceText? source = some cs ∧ readText allowNaN cs = .ok v := by
  unfold decode at decoded
  unfold sourceText?
  split at decoded
  · rename_i s text
    split at decoded
    · cases decoded
    · exact ⟨s.toList, by rw [text], readText_of_decodeText decoded⟩
  · rename_i bytes _
    split at decoded
    · rename_i cs octets
      have read : (Text.decodeBytes bytes).toOption = some cs := by
        rw [octets]
        rfl
      exact ⟨cs, read, readText_of_decodeText decoded⟩
    · cases decoded
  · cases decoded

theorem isJson_of_allFinite (tree : v.IsTree (FoundIn cs)) (finite : v.AllFinite) : v.IsJson := by
  induction tree with
  | scalar leaf =>
    rcases leaf.json_or_infinite with json | ⟨⟨negative, rfl⟩, _⟩
    · exact .scalar json
    · cases finite.at_root
  | list inside ih => exact .list fun v member => ih v member (finite.at_child member)
  | dict distinct inside ih =>
    refine .dict distinct fun m member => ih m member (finite.at_child ?_)
    exact Value.mem_children_of_entry (List.mem_map_of_mem member)

theorem allFinite_of_not_overflows (tree : v.IsTree (FoundIn cs)) (small : ¬ Overflows cs) :
    v.AllFinite := by
  refine tree.every (fun a found => ?_) (fun vs => trivial) fun es => trivial
  rcases found.json_or_infinite with json | ⟨_, large⟩
  · cases a with
    | float x => exact json
    | _ => trivial
  · exact absurd large small

theorem never_nan (tree : v.IsTree (FoundIn cs)) : v.Every fun w => w ≠ .scalar (.float .nan) := by
  refine tree.every ?_ (fun vs same => by cases same) fun es same => by cases same
  rintro a found same
  cases same
  rcases found.json_or_infinite with json | ⟨⟨negative, impossible⟩, _⟩
  · cases json
  · cases impossible

theorem isUndefined_of_isTree (tree : v.IsTree (FoundIn cs)) : v.isUndefined = false := by
  cases tree with
  | scalar leaf =>
    rcases leaf.json_or_infinite with json | ⟨⟨negative, rfl⟩, _⟩
    · exact (Value.IsJson.scalar json).isUndefined
    · rfl
  | list inside => rfl
  | dict distinct inside => rfl

theorem write_error_notFinite (tree : v.IsTree (FoundIn cs)) {e : EncodeError}
    (stopped : write (strict allowNaN) v = .error e) : e = .notFinite := by
  have leaf : ∀ a, FoundIn cs a →
      a ≠ .undefined ∧ ∃ text, writeScalar (strict true) a = .ok text := by
    intro a found
    rcases found.json_or_infinite with json | ⟨⟨negative, rfl⟩, _⟩
    · exact writeScalar_of_isJson true a json
    · exact ⟨by simp, _, rfl⟩
  obtain ⟨_, text, written⟩ := write_of_isTree leaf tree
  cases allowNaN with
  | true =>
    rw [written] at stopped
    cases stopped
  | false =>
    rcases write_alike v with same | ⟨other, stopped', kind⟩
    · rw [stopped, written] at same
      cases same
    · cases stopped.symm.trans stopped'
      exact kind

theorem allFinite_of_written {text : List Char} (written : write (strict false) v = .ok text) :
    v.AllFinite := by
  apply (exists_write_iff.mp ⟨text, written⟩).mono
  intro w writes
  cases w with
  | scalar a =>
    cases a with
    | float x =>
      obtain ⟨text, written⟩ := writes
      exact (finiteFloat_ok written).2.resolve_left (by simp)
    | _ => trivial
  | _ => trivial

end Json

theorem Schema.clone_of_encode_error (s : Schema) {allowNaN : Bool} {v : Value}
    {error : Json.EncodeError} (stopped : Json.encode allowNaN v = .ok (.error error)) :
    (s.clone allowNaN v).result = .ok (.error (.encode error)) := by
  have written : (Json.encodeLogged allowNaN v).result = .ok (.error error) :=
    (Json.encodeLogged_result allowNaN v).trans stopped
  rw [clone, Run.result_bind written]
  rfl

theorem Schema.clone_of_deep (s : Schema) {allowNaN : Bool} {v : Value} (acyclic : v.Acyclic)
    (deep : nestingLimit < v.depth) : (s.clone allowNaN v).result = .error .tooDeep :=
  Run.bind_stopped ((Json.encodeLogged_result allowNaN v).trans
    (Json.encode_of_deep acyclic deep)) _

/-- What is parsed outside the lenient mode is copied as it is if it is finite, and otherwise is
    turned down for not being so. A number that is not finite is an infinity then, and the text
    has a numeral past the largest number. Text is read deeper than it is written, and what was
    parsed from below the limit of writing cannot be copied. -/
theorem clone_of_parsed (s : Schema) {source v : Value}
    (parsed : (s.parse false source).result = .ok (.ok v)) :
    (v.AllFinite → v.depth ≤ nestingLimit → (s.clone false v).result = .ok (.ok v)) ∧
      (¬ v.AllFinite → v.depth ≤ nestingLimit →
        (s.clone false v).result = .ok (.error (.encode .notFinite))) ∧
      (nestingLimit < v.depth → (s.clone false v).result = .error .tooDeep) ∧
      (v.Every fun w => w ≠ .scalar (.float .nan)) ∧
      ∃ cs, Json.sourceText? source = some cs ∧ (¬ v.AllFinite → Json.Overflows cs) := by
  obtain ⟨decoded, accepted⟩ := Schema.parse_ok_iff.mp parsed
  obtain ⟨cs, text, read⟩ := Json.readText_of_decode decoded
  have tree := Json.readText_sound read
  refine ⟨fun finite fits => ?_, fun infinite fits => ?_, s.clone_of_deep tree.acyclic,
    Json.never_nan tree, cs, text, not_imp_comm.mp (Json.allFinite_of_not_overflows tree)⟩
  · have json := Json.isJson_of_allFinite tree finite
    obtain ⟨shown, written⟩ := Json.encode_of_isJson false json fits
    have normal := Value.normal_of_isJson json
    exact Schema.clone_ok_iff.mpr ⟨⟨_, written⟩, normal.symm ▸ accepted, normal.symm⟩
  · have encoded : Json.encode false v =
        .ok ((Json.write (Json.strict false) v).map String.ofList) :=
      Json.encode_acyclic (Json.isUndefined_of_isTree tree) tree.acyclic fits
    cases written : Json.write (Json.strict false) v with
    | ok shown => exact absurd (Json.allFinite_of_written written) infinite
    | error error =>
      rw [written, Json.write_error_notFinite tree written] at encoded
      exact s.clone_of_encode_error encoded

def numberOnly : Schema where
  shape := .atomic .number
  type := .union [.int, .float]
  typed := rfl

def twoAndHalf : Value := .scalar (.float (.finite false 5629499534213120 (-51) (by decide)))

theorem twoAndHalf_copied :
    (numberOnly.parse false (.text "2.5")).result = .ok (.ok twoAndHalf) ∧
      (numberOnly.clone false twoAndHalf).result = .ok (.ok twoAndHalf) := by
  have spelled : Json.numeral? ['2', '.', '5'] = some (⟨false, ['2'], some ['5'], none⟩, []) := rfl
  have value : Json.Numeral.value ⟨false, ['2'], some ['5'], none⟩ =
      .float (.finite false 5629499534213120 (-51) (by decide)) := by decide +kernel
  have decoded := Json.decode_numeral false spelled
  rw [value] at decoded
  have parsed : (numberOnly.parse false (.text "2.5")).result = .ok (.ok twoAndHalf) :=
    Schema.parse_ok_iff.mpr ⟨decoded, rfl⟩
  have finite : twoAndHalf.AllFinite := .scalar rfl
  exact ⟨parsed, (clone_of_parsed numberOnly parsed).1 finite (by decide)⟩

/-- A number past the largest one is parsed, and cannot be copied. -/
theorem overflow_not_copied :
    (numberOnly.parse false (.text "1e400")).result =
        .ok (.ok (.scalar (.float (.infinite false)))) ∧
      ¬ (Value.scalar (.float (.infinite false))).AllFinite ∧
      (numberOnly.clone false (.scalar (.float (.infinite false)))).result =
        .ok (.error (.encode .notFinite)) := by
  have spelled : Json.numeral? ['1', 'e', '4', '0', '0'] =
      some (⟨false, ['1'], none, some 400⟩, []) := rfl
  have decoded := Json.decode_numeral false spelled
  refine ⟨Schema.parse_ok_iff.mpr ⟨decoded, rfl⟩, fun finite => ?_, rfl⟩
  cases finite.at_root

end Conform
