import Conform.Proofs.Parsed

/-!
The kinds of what was decoded. JSON has one type of number, so an integer that is not
safe is decoded as the number nearest to it, and never as an integer of the kind that is
kept apart from numbers. Nor is there a symbol or an undefined value in what was decoded,
or a key that is not a text, however deep inside.
-/
namespace Conform

open Binary64 Json

namespace Value

theorem IsTree.part {p : Scalar → Prop} {v w : Value} (tree : v.IsTree p) (part : v.Part w) :
    w.IsTree p := by
  induction part with
  | whole => exact tree
  | inside _ opened member ih =>
    cases ih with
    | scalar leaf => cases opened
    | list inside =>
      cases opened
      exact inside _ member
    | dict distinct inside =>
      cases opened
      obtain ⟨e, entry, rfl⟩ := List.mem_map.mp member
      obtain ⟨m, listed, rfl⟩ := List.mem_map.mp entry
      exact inside m listed

theorem IsTree.names {p : Scalar → Prop} {v : Value} (tree : v.IsTree p)
    {entries : List (Key × Value)} (opened : v.container? = some (.map entries)) :
    ∃ members : List (String × Value), entries = members.map named ∧
      (members.map (·.1)).Nodup := by
  cases tree with
  | scalar leaf => cases opened
  | list inside => cases opened
  | @dict members distinct inside =>
    cases opened
    exact ⟨members, rfl, distinct⟩

end Value

def Scalar.IsDecoded (a : Scalar) : Prop := a.IsJson ∨ ∃ x, a = .float x

namespace Json

theorem ReadFrom.isDecoded {allowNaN : Bool} {cs : List Char} {a : Scalar}
    (read : ReadFrom allowNaN cs a) : a.IsDecoded := by
  rcases read with found | ⟨_, p, _, rfl⟩
  · rcases found.json_or_infinite with json | ⟨⟨negative, rfl⟩, _⟩
    · exact Or.inl json
    · exact Or.inr ⟨_, rfl⟩
  · exact Or.inr ⟨p.2, rfl⟩

theorem isTree_of_decode {allowNaN : Bool} {source v : Value}
    (decoded : decode allowNaN source = .ok (.ok v)) :
    ∃ text, sourceText? source = some text ∧ v.IsTree (ReadFrom allowNaN text) := by
  obtain ⟨text, same, read⟩ := readText_of_decode decoded
  exact ⟨text, same, (readText_reads read).1⟩

end Json

namespace Scalar.IsDecoded

variable {a : Scalar} (decoded : a.IsDecoded)
include decoded

theorem kind : a.kind ≠ .bigint ∧ a.kind ≠ .symbol ∧ a.kind ≠ .undefined := by
  rcases decoded with json | ⟨x, rfl⟩
  · cases a with
    | int n =>
      have safe : n.natAbs ≤ maxSafeInteger := json
      simp [Scalar.kind, safe]
    | null | bool | text | float => simp [Scalar.kind]
    | _ => cases json
  · simp [Scalar.kind]

theorem written : ∃ text, writeScalar descriptive a = .ok text := by
  rcases decoded with json | ⟨x, rfl⟩
  · cases a with
    | int n => simpa only [writeScalar, Scalar.plain] using integer_safe json
    | null | bool | text | float => exact ⟨_, rfl⟩
    | _ => cases json
  · exact ⟨_, rfl⟩

end Scalar.IsDecoded

namespace Value.IsTree

variable {v : Value} (tree : v.IsTree Scalar.IsDecoded)
include tree

theorem kind : v.kind ≠ .bigint ∧ v.kind ≠ .symbol ∧ v.kind ≠ .undefined := by
  cases tree with
  | scalar leaf => exact leaf.kind
  | list | dict => simp [Value.kind]

theorem described (fits : v.depth ≤ nestingLimit) :
    ∃ text, write descriptive v = .ok text ∧ describe v = .ok (String.ofList text) := by
  have leaf : ∀ a : Scalar, a.IsDecoded →
      a ≠ .undefined ∧ ∃ text, writeScalar descriptive a = .ok text := fun a decoded =>
    ⟨fun absent => decoded.kind.2.2 (congrArg Scalar.kind absent), decoded.written⟩
  obtain ⟨present, text, written⟩ := write_of_isTree leaf tree
  refine ⟨text, written, ?_⟩
  rw [describe, present, obstacle?_eq_none tree.acyclic fits, written]
  rfl

end Value.IsTree

namespace AtomicKind

/-- The schema that has this name accepts the value. -/
def Accepts (k : AtomicKind) (v : Value) : Prop :=
  ∃ s, Schema.atomic k.name = .ok s ∧ (s.validate v).result = .ok (.ok v)

def Refuses (k : AtomicKind) (v : Value) : Prop :=
  ∃ s e, Schema.atomic k.name = .ok s ∧ (s.validate v).result = .ok (.error e)

theorem exists_schema (k : AtomicKind) :
    ∃ s, Schema.atomic k.name = .ok s ∧ s.shape = .atomic k := by
  cases k <;> exact ⟨_, rfl, rfl⟩

variable {k : AtomicKind} {v : Value}

theorem accepts_iff : k.Accepts v ↔ v.kind = k.kind := by
  obtain ⟨s, made, shape⟩ := k.exists_schema
  constructor
  · rintro ⟨t, same, accepted⟩
    cases Except.ok.inj (made.symm.trans same)
    have admits := (s.shape.check_decides v _ (Schema.validate_accept_iff.mp accepted).1).mp rfl
    rw [shape] at admits
    exact admits
  · intro same
    refine ⟨s, made, Schema.validate_accept_iff.mpr ⟨?_, rfl⟩⟩
    rw [shape, Shape.Accepts, Shape.check, if_pos same]
    rfl

theorem refuses_of_kind (other : v.kind ≠ k.kind) {got : String} (shown : describe v = .ok got) :
    k.Refuses v := by
  obtain ⟨s, made, shape⟩ := k.exists_schema
  have rejected : s.shape.RejectsAs v (.of (.expected k.name got)) := by
    rw [shape, Shape.RejectsAs, Shape.check, if_neg other]
    exact Check.expect_result_iff.mpr ⟨got, shown, rfl⟩
  exact ⟨s, _, made, Schema.validate_ok_iff.mpr (Or.inr ⟨_, _, rejected, rfl, rfl⟩)⟩

end AtomicKind

/-- The integer as it is decoded: itself if it is safe, and otherwise the nearest number. -/
def Scalar.StandsFor (a : Scalar) (n : Int) : Prop :=
  (n.natAbs ≤ maxSafeInteger → a = .int n) ∧
    (maxSafeInteger < n.natAbs → ∃ x, a = .float x ∧ IsRounded n x)

theorem plainInteger_standsFor (n : Int) : (plainInteger n).StandsFor n :=
  ⟨fun safe => if_pos safe, plainInteger_isRounded⟩

theorem plainInteger_kind (n : Int) : (plainInteger n).kind = .number := by
  unfold plainInteger
  split
  · rename_i safe
    exact if_pos safe
  · rfl

theorem Json.Numeral.kind_value (n : Numeral) : n.value.kind = .number := by
  by_cases marked : n.fraction ≠ none ∨ n.exponent ≠ none
  · rw [value_of_decimal marked]
    rfl
  · obtain ⟨negative, whole, fraction, exponent⟩ := n
    obtain ⟨rfl, rfl⟩ : fraction = none ∧ exponent = none := by simpa using marked
    rw [value_eq_plainInteger]
    exact plainInteger_kind _

theorem Json.read_integer (allowNaN : Bool) (negative : Bool) {ds : List Char}
    (digits : WholePart ds) :
    ∃ a : Scalar, a.StandsFor (signedInteger negative ds) ∧
      (∀ room rest, EndsInteger rest →
        readValue allowNaN room (signed negative ds ++ rest) = .ok (.scalar a, rest)) ∧
      decode allowNaN (.text (String.ofList (signed negative ds))) = .ok (.ok (.scalar a)) := by
  refine ⟨_, plainInteger_standsFor _, fun room rest ends => ?_, ?_⟩
  · have spelled := numeral?_integerLiteral negative digits ends
    rw [signed_append, ← value_eq_plainInteger]
    exact (readValue_numeral spelled).2
  · have spelled := @numeral?_integerLiteral negative ds [] digits (by intro c head; cases head)
    rw [List.append_nil] at spelled
    rw [← value_eq_plainInteger]
    exact decode_numeral allowNaN spelled

def Value.IsNumber (v : Value) : Prop := (∃ n, v = .scalar (.int n)) ∨ ∃ x, v = .scalar (.float x)

/-- The value of a numeral that stands in the text, or in the lenient mode one of the numbers
    that JSON does not have. -/
def Json.Spelled (allowNaN : Bool) (text : List Char) (v : Value) : Prop :=
  (∃ place n left, place <:+ text ∧ numeral? place = some (n, left) ∧ v = .scalar n.value) ∨
    allowNaN = true ∧ ∃ p ∈ constants, v = .scalar (.float p.2)

theorem Value.IsTree.spelled {allowNaN : Bool} {text : List Char} {v : Value}
    (tree : v.IsTree (ReadFrom allowNaN text)) (number : v.IsNumber) :
    Spelled allowNaN text v := by
  cases tree with
  | @scalar a leaf =>
    rcases leaf with (rfl | ⟨b, rfl⟩ | ⟨s, rfl⟩ | ⟨place, n, left, within, read, rfl⟩) |
      ⟨lenient, p, member, rfl⟩
    · rcases number with ⟨_, impossible⟩ | ⟨_, impossible⟩ <;> cases impossible
    · rcases number with ⟨_, impossible⟩ | ⟨_, impossible⟩ <;> cases impossible
    · rcases number with ⟨_, impossible⟩ | ⟨_, impossible⟩ <;> cases impossible
    · exact Or.inl ⟨place, n, left, within, read, rfl⟩
    · exact Or.inr ⟨lenient, p, member, rfl⟩
  | list | dict => rcases number with ⟨_, impossible⟩ | ⟨_, impossible⟩ <;> cases impossible

theorem AtomicKind.accepts_number {v : Value} (number : v.IsNumber) (ordinary : v.kind ≠ .bigint) :
    AtomicKind.number.Accepts v := by
  refine accepts_iff.mpr ?_
  rcases number with ⟨n, rfl⟩ | ⟨x, rfl⟩
  · -- past the safe ones it would be of the other kind
    by_cases safe : n.natAbs ≤ maxSafeInteger
    · exact if_pos safe
    · exact absurd (if_neg safe) ordinary
  · rfl

/-- Nothing that is inside a decoded value, the value itself included, is an integer past the
    safe ones, a symbol or undefined. The schemas of these kinds never accept it, and as far as
    its nesting can be quoted they turn it down. A map has texts for its keys, each of them once.
    A number is spelled in the text, and the schema of numbers accepts it, as it does what is read
    of any numeral. An integer of any length stands for itself if it is safe, and otherwise for
    the number nearest to it, wherever a value is read. -/
theorem decoded_kinds (allowNaN : Bool) :
    (∀ source v, decode allowNaN source = .ok (.ok v) → ∃ text, sourceText? source = some text ∧
      ∀ w, v.Part w →
        (w.kind ≠ .bigint ∧ w.kind ≠ .symbol ∧ w.kind ≠ .undefined) ∧
        (∀ k ∈ [AtomicKind.bigint, .symbol, .undefined],
          ¬ k.Accepts w ∧ (w.depth ≤ nestingLimit → k.Refuses w)) ∧
        (∀ entries, w.container? = some (.map entries) → ∃ members : List (String × Value),
          entries = members.map Value.named ∧ (members.map (·.1)).Nodup) ∧
        (w.IsNumber → Spelled allowNaN text w ∧ AtomicKind.number.Accepts w)) ∧
    (∀ cs n left, numeral? cs = some (n, left) → ∀ room,
      readValue allowNaN room cs = .ok (.scalar n.value, left) ∧
        AtomicKind.number.Accepts (.scalar n.value)) ∧
    ∀ negative ds, WholePart ds → ∃ a : Scalar, a.StandsFor (signedInteger negative ds) ∧
      (∀ room rest, EndsInteger rest →
        readValue allowNaN room (signed negative ds ++ rest) = .ok (.scalar a, rest)) ∧
      decode allowNaN (.text (String.ofList (signed negative ds))) = .ok (.ok (.scalar a)) := by
  refine ⟨fun source v decoded => ?_, fun cs n left spelled room =>
    ⟨(readValue_numeral spelled).2, AtomicKind.accepts_iff.mpr n.kind_value⟩,
    fun negative ds => read_integer allowNaN negative⟩
  obtain ⟨text, same, tree⟩ := isTree_of_decode decoded
  refine ⟨text, same, fun w part => ?_⟩
  have found : w.IsTree (ReadFrom allowNaN text) := tree.part part
  have inner : w.IsTree Scalar.IsDecoded := found.mono fun _ leaf => leaf.isDecoded
  obtain ⟨bigint, symbol, undefined⟩ := inner.kind
  refine ⟨inner.kind, fun k member => ?_, fun entries => inner.names, fun number =>
    ⟨found.spelled number, AtomicKind.accepts_number number bigint⟩⟩
  have other : w.kind ≠ k.kind := by
    simp only [List.mem_cons, List.not_mem_nil, or_false] at member
    rcases member with rfl | rfl | rfl
    · exact bigint
    · exact symbol
    · exact undefined
  refine ⟨mt AtomicKind.accepts_iff.mp other, fun fits => ?_⟩
  obtain ⟨_, _, shown⟩ := inner.described fits
  exact AtomicKind.refuses_of_kind other shown

def twice : Value :=
  .map none .frozen [(.scalar (.text "true"), .null),
    (.scalar (.bool true), .scalar (.float (.infinite false)))]

def once : Value := .dict ([("true", Value.scalar (.float (.infinite false)))].map Value.named)

theorem once_decoded :
    decode true (.text "\x7b\"true\":null,\"true\":Infinity\x7d") = .ok (.ok once) ∧
      (¬ AtomicKind.bigint.Accepts once ∧ AtomicKind.bigint.Refuses once) ∧
      AtomicKind.number.Accepts (.scalar (.float (.infinite false))) ∧
      readValue true 0 ['1', 'e', '9', ']'] =
        .ok (.scalar (Numeral.value ⟨false, ['1'], none, some 9⟩), [']']) ∧
      ∃ a : Scalar, a.StandsFor (-9007199254740993) ∧
        readValue true 0 "-9007199254740993]".toList = .ok (.scalar a, [']']) ∧
        decode true (.text "-9007199254740993") = .ok (.ok (.scalar a)) := by
  have written : write (strict true) twice =
      .ok "\x7b\"true\":null,\"true\":Infinity\x7d".toList := rfl
  have decoded : decode true (.text "\x7b\"true\":null,\"true\":Infinity\x7d") =
      .ok (.ok once) := decode_of_readsAs (readsAs_written twice (by decide) written)
  obtain ⟨text, _, parts⟩ := (decoded_kinds true).1 _ _ decoded
  obtain ⟨unaccepted, refused⟩ := (parts once .whole).2.1 .bigint (by simp)
  obtain ⟨_, _, _, number⟩ := parts _ (.item rfl (List.mem_singleton.mpr rfl))
  have digits : WholePart "9007199254740993".toList :=
    Or.inr ⟨List.all_eq_true.mp rfl, '9', "007199254740993".toList, rfl, by decide⟩
  obtain ⟨a, stands, read, whole⟩ := (decoded_kinds true).2.2 true _ digits
  refine ⟨decoded, ⟨unaccepted, refused (by decide)⟩, (number (Or.inr ⟨_, rfl⟩)).2,
    ((decoded_kinds true).2.1 ['1', 'e', '9', ']'] _ _ rfl 0).1, a, stands, ?_, whole⟩
  exact read 0 [']'] (by intro c head; cases head; decide)

end Conform
