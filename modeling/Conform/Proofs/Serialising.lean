import Conform.Proofs.Cloning
import Conform.Proofs.Cycles

/-!
The values that have a JSON text. Everything in such a value has a text of its own,
and no container is inside itself. What is inside itself is noticed first, whatever
else is in the value.
-/
namespace Conform

def ShortInteger (n : Int) : Prop := (Nat.toDigits 10 n.natAbs).length ≤ digitLimit

theorem length_toDigits_le_iff {n limit : Nat} (positive : 0 < limit) :
    (Nat.toDigits 10 n).length ≤ limit ↔ n < Nat.pow 10 limit :=
  Nat.length_toDigits_le_iff (by decide) positive

def Scalar.Serialisable (allowNaN : Bool) (a : Scalar) : Prop :=
  match a.plain with
  | .undefined | .null | .bool _ | .text _ | .date _ | .clock _ | .moment _ => True
  | .int n => ShortInteger n
  | .float x => allowNaN = true ∨ x.isFinite = true
  | .symbol _ | .bytes _ | .token _ => False

/-- Fewer scalars can be keys: nothing undefined, no dates and no times. -/
def Key.Serialisable (allowNaN : Bool) : Key → Prop
  | .tuple _ => False
  | .scalar a => match a.plain with
    | .null | .bool _ | .text _ => True
    | .int n => ShortInteger n
    | .float x => allowNaN = true ∨ x.isFinite = true
    | _ => False

namespace Value

/-- The value can be written as far as it does not depend on what is inside it. Keys of
    undefined entries are never written. -/
def NodeSerialisable (allowNaN : Bool) : Value → Prop
  | .scalar a => a.Serialisable allowNaN
  | .seq .. => True
  | .map _ _ es => ∀ e ∈ es, e.2.isUndefined = false → e.1.Serialisable allowNaN
  | .set _ | .again _ => False

structure Serialisable (allowNaN : Bool) (v : Value) : Prop where
  present : v.isUndefined = false
  unlooped : ∀ w, v.Part w → ¬ w.InsideItself
  parts : ∀ w, v.Part w → w.NodeSerialisable allowNaN

end Value

namespace Json

variable {allowNaN : Bool} {v : Value}

theorem exists_integer_iff {n : Int} : (∃ text, integer n = .ok text) ↔ ShortInteger n := by
  refine Iff.trans ?_ (length_toDigits_le_iff (by decide)).symm
  unfold integer integerText
  split
  · rename_i shown
    split at shown
    · rename_i short
      exact iff_of_true ⟨_, rfl⟩ short
    · cases shown
  · rename_i shown
    split at shown
    · cases shown
    · rename_i long
      exact iff_of_false (by rintro ⟨_, ⟨⟩⟩) long

theorem exists_finiteFloat_iff {x : Binary64} :
    (∃ text, finiteFloat allowNaN x = .ok text) ↔ allowNaN = true ∨ x.isFinite = true := by
  constructor
  · exact fun ⟨_, written⟩ => (finiteFloat_ok written).2
  · exact fun allowed => ⟨floatText x, by simp [finiteFloat, allowed]⟩

theorem exists_writeScalar_iff {a : Scalar} :
    (∃ text, writeScalar (strict allowNaN) a = .ok text) ↔ a.Serialisable allowNaN := by
  unfold writeScalar Scalar.Serialisable
  cases a with
  | int n => simpa only [Scalar.plain] using exists_integer_iff
  | float x => simpa only [Scalar.plain, strict] using exists_finiteFloat_iff
  | symbol s =>
    obtain ⟨family, name, payload, transparent⟩ := s
    cases transparent with
    | false => simp [Scalar.plain, strict, datedLeaf]
    | true =>
      cases payload with
      | int n => simpa only [Scalar.plain] using exists_integer_iff
      | float x => simpa only [Scalar.plain, strict] using exists_finiteFloat_iff
      | text => simp [Scalar.plain]
  | _ => simp [Scalar.plain, strict, datedLeaf]

theorem exists_keyText_iff {k : Key} :
    (∃ text, keyText (strict allowNaN) k = .ok text) ↔ k.Serialisable allowNaN := by
  unfold keyText Key.Serialisable
  cases k with
  | tuple => simp
  | scalar a =>
    cases plain : a.plain with
    | int n => simpa only [plain] using exists_integer_iff
    | float x => simpa only [plain, strict] using exists_finiteFloat_iff
    | _ => simp [plain]

theorem writes_strict_iff : (strict allowNaN).Writes v ↔ v.NodeSerialisable allowNaN := by
  cases v with
  | scalar a => exact exists_writeScalar_iff
  | seq => exact Iff.rfl
  | map name kind es => exact forall₃_congr fun _ _ _ => exists_keyText_iff
  | set => exact iff_of_false (by rintro ⟨_, ⟨⟩⟩) id
  | again => exact Iff.rfl

theorem obstacle?_of_fits {room : Nat} (fits : v.depth ≤ room) :
    obstacle? room v = none ∧ v.Acyclic ∨ obstacle? room v = some .circular ∧ ¬ v.Acyclic := by
  cases met : obstacle? room v with
  | none => exact Or.inl ⟨rfl, acyclic_of_obstacle? met⟩
  | some o =>
    cases o with
    | tooDeep => exact absurd (lt_depth_of_tooDeep met) (Nat.not_lt_of_le fits)
    | circular => exact Or.inr ⟨rfl, not_acyclic_of_circular met⟩

theorem encode_returns (allowNaN : Bool) (fits : v.depth ≤ nestingLimit) :
    ∃ r, encode allowNaN v = .ok r := by
  rcases obstacle?_of_fits fits with ⟨free, _⟩ | ⟨met, _⟩
  · unfold encode
    rw [free]
    split
    · exact ⟨_, rfl⟩
    · exact ⟨_, rfl⟩
  · exact ⟨_, encode_circular met⟩

theorem exists_encoded_iff (acyclic : v.Acyclic) (fits : v.depth ≤ nestingLimit) :
    (∃ text, encode allowNaN v = .ok (.ok text)) ↔
      v.isUndefined = false ∧ ∀ w, v.Part w → w.NodeSerialisable allowNaN := by
  have nodes : v.Every (strict allowNaN).Writes ↔ ∀ w, v.Part w → w.NodeSerialisable allowNaN :=
    (Value.Acyclic.every_iff acyclic).trans (forall₂_congr fun _ _ => writes_strict_iff)
  cases absent : v.isUndefined with
  | true =>
    refine iff_of_false ?_ fun present => by cases present.1
    rintro ⟨text, encoded⟩
    rw [Value.isUndefined_iff.mp absent] at encoded
    cases encoded
  | false =>
    rw [← nodes, ← exists_write_iff, encode_acyclic absent acyclic fits]
    constructor
    · rintro ⟨text, encoded⟩
      cases written : write (strict allowNaN) v with
      | error e =>
        rw [written] at encoded
        cases encoded
      | ok cs => exact ⟨rfl, cs, rfl⟩
    · rintro ⟨_, cs, written⟩
      exact ⟨_, by rw [written]; rfl⟩

/-- Exactly the serialisable values are encoded, and all others are turned down with an error.
    A container inside itself is what the error is about, whatever else is in the value. -/
theorem encode_serialises (allowNaN : Bool) {v : Value} (closed : v.Closed)
    (fits : v.depth ≤ nestingLimit) :
    ((∃ text, encode allowNaN v = .ok (.ok text)) ↔ v.Serialisable allowNaN) ∧
      (¬ v.Serialisable allowNaN → ∃ error, encode allowNaN v = .ok (.error error)) ∧
      ((∃ w, v.Part w ∧ w.InsideItself) → ∃ error, encode allowNaN v = .ok (.error error) ∧
        error.message = "Circular reference detected") := by
  have unlooped := Value.acyclic_iff closed
  have encoded : (∃ text, encode allowNaN v = .ok (.ok text)) ↔ v.Serialisable allowNaN := by
    rcases obstacle?_of_fits fits with ⟨_, acyclic⟩ | ⟨met, cyclic⟩
    · rw [exists_encoded_iff acyclic fits]
      exact ⟨fun ⟨present, parts⟩ => ⟨present, unlooped.mp acyclic, parts⟩,
        fun serialisable => ⟨serialisable.present, serialisable.parts⟩⟩
    · refine iff_of_false ?_ fun serialisable => cyclic (unlooped.mpr serialisable.unlooped)
      rintro ⟨text, written⟩
      rw [encode_circular met] at written
      cases written
  refine ⟨encoded, fun unserialisable => ?_, ?_⟩
  · obtain ⟨r, ending⟩ := encode_returns allowNaN fits
    cases r with
    | ok text => exact absurd (encoded.mp ⟨text, ending⟩) unserialisable
    | error error => exact ⟨error, ending⟩
  · rintro ⟨w, part, inside⟩
    rcases obstacle?_of_fits fits with ⟨_, acyclic⟩ | ⟨met, _⟩
    · exact absurd inside (unlooped.mp acyclic w part)
    · exact ⟨_, encode_circular met, rfl⟩

def selfHeld : Value := .seq (some 0) .mutable [.set none, .again 0]

def ledger : Value :=
  .map none .frozen [
    (.scalar (.symbol ⟨"Side", "LEFT", .text "left", true⟩),
      .tuple [.undefined, .scalar (.bool true)]),
    (.scalar (.float .nan), .scalar (.date ⟨2024, 1, 2⟩)),
    (.tuple [], .undefined)]

theorem selfHeld_closed : selfHeld.Closed := by
  rintro n (_ | ⟨other, child, inner⟩)
  rcases List.mem_pair.mp child with rfl | rfl
  · cases inner with
    | inside _ child => cases child
  · cases inner with
    | again => exact other rfl
    | inside _ child => cases child

theorem ledger_acyclic : ledger.Acyclic := by
  have row : (Value.tuple [.undefined, .scalar (.bool true)]).Acyclic :=
    .node trivial (List.forall_mem_cons.mpr
      ⟨.scalar trivial, List.forall_mem_singleton.mpr (.scalar trivial)⟩)
  exact .node trivial (List.forall_mem_cons.mpr ⟨row, List.forall_mem_cons.mpr
    ⟨.scalar trivial, List.forall_mem_singleton.mpr (.scalar trivial)⟩⟩)

theorem ledger_written :
    encode true ledger = .ok (.ok "\x7b\"left\":[null,true],\"NaN\":\"2024-01-02\"\x7d") ∧
      ledger.Serialisable true ∧
      (∃ error, encode false ledger = .ok (.error error)) ∧
      ∃ error, encode true selfHeld = .ok (.error error) ∧
        error.message = "Circular reference detected" := by
  have written : encode true ledger =
      .ok (.ok "\x7b\"left\":[null,true],\"NaN\":\"2024-01-02\"\x7d") := rfl
  have closed := ledger_acyclic.closed
  refine ⟨written, (encode_serialises true closed (by decide)).1.mp ⟨_, written⟩,
    (encode_serialises false closed (by decide)).2.1 fun serialisable => ?_,
    (encode_serialises true selfHeld_closed (by decide)).2.2
      ⟨selfHeld, .whole, .seq [.set none, selfHeld], selfHeld, rfl, by simp [Container.values],
        .whole⟩⟩
  have key := serialisable.parts ledger .whole (.scalar (.float .nan), .scalar (.date ⟨2024, 1, 2⟩))
    (.tail _ (.head _)) rfl
  rcases key with ⟨⟨⟩⟩ | ⟨⟨⟩⟩

end Json
end Conform
