import Conform.Proofs.Bracketing
import Conform.Proofs.Copying
import Conform.Proofs.DecodedKinds

/-!
Parsing with a default to fall back on. Text that is not nested too deeply is parsed or turned
down, and nothing stops it; so the outcome is what was parsed, or else a copy of the default.
The copy is all that can fail: a default with a read-only map in it is accepted like any
other, but not copied.
-/
namespace Conform

open Json

theorem Scalar.IsDecoded.writable {a : Scalar} (decoded : a.IsDecoded) : a.Writable := by
  rcases decoded with json | ⟨x, rfl⟩
  · cases a with
    | int n => exact writableInteger_of_safe json
    | null | bool | text | float => trivial
    | _ => cases json
  · trivial

namespace Json

variable {allowNaN : Bool}

def WritableFrom (cs : List Char) (v : Value) : Prop :=
  cs.length ≤ Nat.pow 10 digitLimit → v.Writable

theorem WritableFrom.later {cs ds : List Char} {v : Value} (shorter : cs <:+ ds)
    (writable : WritableFrom cs v) : WritableFrom ds v :=
  fun short => writable (shorter.length_le.trans short)

theorem readValue_writable (room : Nat) : Sound WritableFrom (readValue allowNaN room) := by
  refine readValue_induction (P := fun _ => WritableFrom) WritableFrom.later ?_ ?_ ?_ ?_ room
  · intro room cs s _
    exact .scalar trivial
  · intro room cs v left read _
    obtain ⟨_, a, rfl, leaf⟩ := plainValue_sound read
    exact .scalar leaf.isDecoded.writable
  -- the items of a list are no more than the characters that it is read from
  · intro room cs vs few inside short
    exact .node (few.trans short) fun v member => inside v member short
  · intro room cs members distinct inside short
    refine .node (fun e member => ?_) fun v child => ?_
    · obtain ⟨m, listed, rfl⟩ := List.mem_map.mp member
      trivial
    · obtain ⟨m, listed, rfl⟩ := Value.mem_children_named child
      exact inside m listed short

theorem depth_le_of_decode {text : String} {v : Value}
    (decoded : decode allowNaN (.text text) = .ok (.ok v)) : v.depth ≤ nesting text.toList := by
  obtain ⟨cs, same, read⟩ := readText_of_decode decoded
  cases same
  exact depth_le_of_readText read

theorem writable_of_decode {text : String} {v : Value}
    (decoded : decode allowNaN (.text text) = .ok (.ok v))
    (short : text.length ≤ Nat.pow 10 digitLimit) : v.Writable := by
  obtain ⟨cs, same, read⟩ := readText_of_decode decoded
  cases same
  exact of_readText (readValue_writable readingLimit) WritableFrom.later read short

end Json

namespace Schema

variable {s : Schema} {allowNaN : Bool} {source default v : Value}

theorem parse_returns (builtin : s.shape.Every Shape.Builtin) (readable : s.shape.NamesReadable)
    {text : String} (nested : nesting text.toList ≤ nestingLimit)
    (short : text.length ≤ Nat.pow 10 digitLimit) :
    ∃ r, (s.parse allowNaN (.text text)).result = .ok r := by
  obtain ⟨r, decoded⟩ := decode_returns allowNaN (nested.trans nestingLimit_le_readingLimit)
  cases r with
  | error error =>
    have logged := (decodeLogged_result allowNaN (.text text)).trans decoded
    exact ⟨_, Run.result_bind logged _⟩
  | ok v =>
    obtain ⟨_, _, tree⟩ := isTree_of_decode decoded
    have fits : v.depth ≤ nestingLimit := (depth_le_of_decode decoded).trans nested
    have confined := Shape.check_confined_acyclic builtin s.typed tree.acyclic fits
    have none := Shape.not_stops (tree.acyclic.shallow fits) (writable_of_decode decoded short)
      readable
    rw [parse_decoded decoded]
    exact (validated_faults (validate_faults confined)).returns none

theorem parseWithDefault_of_ok (parsed : (s.parse allowNaN source).result = .ok (.ok v)) :
    (s.parseWithDefault allowNaN source default).result = .ok v :=
  Run.result_bind parsed _

theorem parseWithDefault_of_error {rejection : Rejection}
    (parsed : (s.parse allowNaN source).result = .ok (.error rejection)) :
    (s.parseWithDefault allowNaN source default).result = default.copy := by
  rw [parseWithDefault, Run.result_bind parsed]
  rfl

end Schema

/-- Text is parsed or turned down. What is parsed is the outcome, whatever the default. When the
    text is turned down, the outcome is the default with all that is in it, exactly if no
    read-only map is in it and its nesting is followed. A read-only map stops the copying. -/
theorem parseWithDefault_outcome (s : Schema) (builtin : s.shape.Every Shape.Builtin)
    (readable : s.shape.NamesReadable) (allowNaN : Bool) {text : String}
    (nested : nesting text.toList ≤ nestingLimit) (short : text.length ≤ Nat.pow 10 digitLimit)
    {default : Value} (distinct : default.Every Value.NodeDistinct) :
    ∃ r, (s.parse allowNaN (.text text)).result = .ok r ∧
      (∀ v, r = .ok v → (s.parseWithDefault allowNaN (.text text) default).result = .ok v) ∧
      ∀ rejection, r = .error rejection →
        (∀ w, (s.parseWithDefault allowNaN (.text text) default).result = .ok w ↔
          default.Copyable ∧ default.depth ≤ nestingLimit ∧ w = default) ∧
        (¬ default.Copyable → default.depth ≤ nestingLimit →
          (s.parseWithDefault allowNaN (.text text) default).result =
            .error (.uncopyable "mappingproxy")) := by
  obtain ⟨r, parsed⟩ := s.parse_returns builtin readable nested short
  refine ⟨r, parsed, ?_, ?_⟩
  · rintro v rfl
    exact Schema.parseWithDefault_of_ok parsed
  · rintro rejection rfl
    rw [Schema.parseWithDefault_of_error parsed]
    exact ⟨fun w => Value.copy_ok_iff distinct, Value.copy_of_not_copyable⟩

def texted (name : String) : Schema where
  shape := .struct 0 false [(name, .atomic .string)]
  type := .struct 0 [(name, .text, true)]
  typed := rfl

theorem every_texted {p : Shape → Prop} {name : String} (struct : p (texted name).shape)
    (string : p (.atomic .string)) : (texted name).shape.Every p :=
  .node struct (List.forall_mem_singleton.mpr (.leaf string rfl))

/-- The list that is its own first item is what the default is, and what comes back where the
    text has no text under "1". -/
theorem loop_delivered :
    ((texted "1").validate loop).result = .ok (.ok loop) ∧
      ((texted "1").parseWithDefault false (.text "[{}]") loop).result = .ok loop := by
  have readable : (texted "1").shape.NamesReadable := by
    refine every_texted (fun field member digits index => ?_) trivial
    cases List.mem_singleton.mp member
    cases index
    decide
  have distinct : loop.Every Value.NodeDistinct := every_loop trivial trivial trivial
  have copyable : loop.Copyable := every_loop trivial trivial trivial
  have short : "[{}]".length ≤ Nat.pow 10 digitLimit := Digits.le_pow (by decide) (by decide)
  obtain ⟨r, parsed, _, fallen⟩ := parseWithDefault_outcome (texted "1")
    (every_texted trivial trivial) readable false (by decide) short distinct
  obtain ⟨rejection, rejected⟩ : ∃ rejection,
      ((texted "1").parse false (.text "[{}]")).result = .ok (.error rejection) := ⟨_, rfl⟩
  have same : r = .error rejection := Except.ok.inj (parsed.symm.trans rejected)
  exact ⟨rfl, ((fallen rejection same).1 loop).mpr ⟨copyable, by decide, rfl⟩⟩

def bob : Value := .map none .frozen ([("name", .text "Bob")].map Value.named)

/-- A read-only map that is accepted is not delivered when the text is malformed. -/
theorem frozen_default_not_delivered :
    ((texted "name").validate bob).result = .ok (.ok bob) ∧
      ((texted "name").parseWithDefault false (.text "not json") bob).result =
        .error (.uncopyable "mappingproxy") :=
  ⟨rfl, rfl⟩

end Conform
