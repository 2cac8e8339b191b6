import Conform.Proofs.Decoded
import Conform.Proofs.Serialising
import Conform.Session

/-!
What changes where numbers that are not finite are allowed. Reading and writing go the same
way, up to the first number that is not finite: there the strict one stops with an error
that is kept for this. So whatever has been read, written, parsed or copied outside of all
contexts is so within one that allows more, and only what holds such a number is written
there alone.
-/
namespace Conform

namespace Json

def Halt.IsConstant (h : Halt) : Prop := ∃ name, h = .constant name

theorem plainValue_alike (cs : List Char) :
    AlikeUnless Halt.IsConstant (plainValue false cs) (plainValue true cs) := by
  unfold plainValue
  split
  · exact alikeUnless_self _
  · split
    · rename_i w x left _
      exact Or.inr ⟨.constant w, rfl, w, rfl⟩
    · exact alikeUnless_self _

theorem readText_alike (cs : List Char) :
    AlikeUnless Halt.IsConstant (readText false cs) (readText true cs) := by
  apply (readValue_alike plainValue_alike (Or.inl rfl) _).bind
  intro r
  exact alikeUnless_self _

theorem decode_alike (source : Value) :
    decode false source = decode true source ∨
      ∃ name, decode false source = .ok (.error (.constant name)) := by
  have read : ∀ cs, decodeText false cs = decodeText true cs ∨
      ∃ name, decodeText false cs = .ok (.error (.constant name)) := by
    intro cs
    rcases readText_alike cs with same | ⟨h, stopped, name, constant⟩
    · left
      rw [decodeText, decodeText, same]
    · right
      subst constant
      exact ⟨name, by rw [decodeText, stopped]⟩
  unfold decode
  split
  · split
    · exact Or.inl rfl
    · exact read _
  · split
    · exact read _
    · exact Or.inl rfl
  · exact Or.inl rfl

/-- A value has one text, or is turned down for one reason, unless the strict writer turns it down
    for a number that is not finite. -/
theorem encode_alike (v : Value) :
    encode false v = encode true v ∨ encode false v = .ok (.error .notFinite) := by
  unfold encode
  split
  · exact Or.inl rfl
  · split
    · exact Or.inl rfl
    · exact Or.inl rfl
    · rcases write_alike v with same | ⟨e, stopped, kind⟩
      · rw [same]
        exact Or.inl rfl
      · subst kind
        rw [stopped]
        exact Or.inr rfl

end Json

open Json

def Scalar.NotFinite (a : Scalar) : Prop := ∃ x, a.plain = .float x ∧ x.isFinite = false

/-- The value is a number that is not finite, or has one for a key. -/
def Value.NotFinite : Value → Prop
  | .scalar a => a.NotFinite
  | .map _ _ es => ∃ e ∈ es, ∃ a, e.1 = .scalar a ∧ a.NotFinite
  | _ => False

theorem Scalar.notFinite_of_serialisable {a : Scalar} (lenient : a.Serialisable true)
    (refused : ¬ a.Serialisable false) : a.NotFinite := by
  unfold Scalar.Serialisable at lenient refused
  cases plain : a.plain with
  | float x =>
    rw [plain] at refused
    refine ⟨x, plain, ?_⟩
    simpa using refused
  | _ =>
    rw [plain] at lenient refused
    exact absurd lenient refused

theorem Key.notFinite_of_serialisable {k : Key} (lenient : k.Serialisable true)
    (refused : ¬ k.Serialisable false) : ∃ a, k = .scalar a ∧ a.NotFinite := by
  cases k with
  | tuple ks => cases lenient
  | scalar a =>
    unfold Key.Serialisable at lenient refused
    dsimp only at lenient refused
    cases plain : a.plain with
    | float x =>
      refine ⟨a, rfl, x, plain, ?_⟩
      rw [plain] at refused
      simpa using refused
    | _ =>
      rw [plain] at lenient refused
      exact absurd lenient refused

theorem Value.notFinite_of_serialisable {v : Value} (lenient : v.NodeSerialisable true)
    (refused : ¬ v.NodeSerialisable false) : v.NotFinite := by
  cases v with
  | scalar a => exact Scalar.notFinite_of_serialisable lenient refused
  | seq => exact absurd trivial refused
  | map name kind es =>
    simp only [NodeSerialisable, not_forall] at refused
    obtain ⟨e, member, present, refused⟩ := refused
    exact ⟨e, member, Key.notFinite_of_serialisable (lenient e member present) refused⟩
  | set => exact lenient.elim
  | again => exact lenient.elim

theorem exists_notFinite {v : Value} {e : EncodeError} {text : String}
    (refused : encode false v = .ok (.error e)) (written : encode true v = .ok (.ok text)) :
    e = .notFinite ∧ ∃ w, v.Part w ∧ w.NotFinite := by
  constructor
  · rcases encode_alike v with same | stopped
    · rw [refused, written] at same
      cases same
    · rw [refused] at stopped
      cases stopped
      rfl
  · obtain ⟨free, _⟩ := encode_written written
    have acyclic := acyclic_of_obstacle? free
    have fits := depth_le_of_obstacle? free
    obtain ⟨present, lenient⟩ := (exists_encoded_iff acyclic fits).mp ⟨text, written⟩
    by_contra finite
    have strict : ∀ w, v.Part w → w.NodeSerialisable false := by
      intro w part
      by_contra refused
      exact finite ⟨w, part, Value.notFinite_of_serialisable (lenient w part) refused⟩
    obtain ⟨other, encoded⟩ := (exists_encoded_iff acyclic fits).mpr ⟨present, strict⟩
    rw [refused] at encoded
    cases encoded

namespace Schema

variable {h : Schema} {allowNaN : Bool}

theorem clone_encoded {v : Value} {text : String} (encoded : encode allowNaN v = .ok (.ok text)) :
    h.clone allowNaN v = h.parse allowNaN (.text text) := by
  unfold clone encodeLogged
  rw [encoded]
  rfl

end Schema

namespace Json

theorem decode_lenient {allowNaN : Bool} {source w : Value}
    (decoded : decode allowNaN source = .ok (.ok w)) : decode true source = .ok (.ok w) := by
  cases allowNaN with
  | true => exact decoded
  | false =>
    rcases decode_alike source with same | ⟨name, stopped⟩
    · exact same.symm.trans decoded
    · rw [decoded] at stopped
      cases stopped

theorem encode_lenient {allowNaN : Bool} {v : Value} {text : String}
    (encoded : encode allowNaN v = .ok (.ok text)) : encode true v = .ok (.ok text) := by
  cases allowNaN with
  | true => exact encoded
  | false =>
    rcases encode_alike v with same | stopped
    · exact same.symm.trans encoded
    · rw [encoded] at stopped
      cases stopped

end Json

theorem Schema.parse_lenient {h : Schema} {allowNaN : Bool} {source w : Value}
    (parsed : (h.parse allowNaN source).result = .ok (.ok w)) :
    h.parse true source = h.parse allowNaN source := by
  have decoded := (parse_ok_iff.mp parsed).1
  rw [parse_decoded decoded, parse_decoded (decode_lenient decoded)]

theorem Schema.clone_lenient {h : Schema} {allowNaN : Bool} {v w : Value}
    (cloned : (h.clone allowNaN v).result = .ok (.ok w)) :
    h.clone true v = h.clone allowNaN v := by
  obtain ⟨⟨text, encoded⟩, _⟩ := clone_ok_iff.mp cloned
  rw [clone_encoded encoded] at cloned ⊢
  rw [clone_encoded (encode_lenient encoded)]
  exact parse_lenient cloned

/-- In a context that allows numbers that are not finite, whatever was decoded, encoded, parsed or
    copied outside of it has the same result, and parsing and copying call the same checks. Only
    a value that holds such a number, by itself or for a key, is encoded there alone. -/
theorem context_conservative (s : Session) :
    (∀ source w, decode s.allowNaN source = .ok (.ok w) →
      decode (s.enter true).allowNaN source = .ok (.ok w)) ∧
    (∀ v text, encode s.allowNaN v = .ok (.ok text) →
      encode (s.enter true).allowNaN v = .ok (.ok text)) ∧
    (∀ (h : Schema) source w, (h.parse s.allowNaN source).result = .ok (.ok w) →
      h.parse (s.enter true).allowNaN source = h.parse s.allowNaN source) ∧
    (∀ (h : Schema) v w, (h.clone s.allowNaN v).result = .ok (.ok w) →
      h.clone (s.enter true).allowNaN v = h.clone s.allowNaN v) ∧
    ∀ v e text, encode s.allowNaN v = .ok (.error e) →
      encode (s.enter true).allowNaN v = .ok (.ok text) →
      e = .notFinite ∧ ∃ w, v.Part w ∧ w.NotFinite := by
  refine ⟨fun _ _ => decode_lenient, fun _ _ => encode_lenient, fun _ _ _ => Schema.parse_lenient,
    fun _ _ _ => Schema.clone_lenient, ?_⟩
  intro v e text refused written
  cases allowed : s.allowNaN with
  | true =>
    rw [allowed] at refused
    change encode true v = .ok (.ok text) at written
    rw [refused] at written
    cases written
  | false =>
    rw [allowed] at refused
    exact exists_notFinite refused written

def anything : Schema where
  shape := .custom Check.pass .any
  type := .any
  typed := rfl

def unbounded : Value := .dict [(.scalar (.float (.infinite true)), .list [.null])]

theorem unbounded_encoded_inside :
    decode (Session.start.enter true).allowNaN (.text "[null]") = .ok (.ok (.list [.null])) ∧
      encode (Session.start.enter true).allowNaN (.list [.null]) = .ok (.ok "[null]") ∧
      (anything.parse (Session.start.enter true).allowNaN (.text "[null]")).result =
        .ok (.ok (.list [.null])) ∧
      (anything.clone (Session.start.enter true).allowNaN (.list [.null])).result =
        .ok (.ok (.list [.null])) ∧
      encode Session.start.allowNaN unbounded = .ok (.error .notFinite) ∧
      encode (Session.start.enter true).allowNaN unbounded =
        .ok (.ok "\x7b\"-Infinity\":[null]\x7d") ∧
      ∃ w, unbounded.Part w ∧ w.NotFinite := by
  obtain ⟨decodes, encodes, parses, clones, only⟩ := context_conservative Session.start
  have decoded : decode Session.start.allowNaN (.text "[null]") = .ok (.ok (.list [.null])) := rfl
  have encoded : encode Session.start.allowNaN (.list [.null]) = .ok (.ok "[null]") := rfl
  have parsed : (anything.parse Session.start.allowNaN (.text "[null]")).result =
      .ok (.ok (.list [.null])) := rfl
  have cloned : (anything.clone Session.start.allowNaN (.list [.null])).result =
      .ok (.ok (.list [.null])) := rfl
  have refused : encode Session.start.allowNaN unbounded = .ok (.error .notFinite) := rfl
  have written : encode (Session.start.enter true).allowNaN unbounded =
      .ok (.ok "\x7b\"-Infinity\":[null]\x7d") := rfl
  refine ⟨decodes _ _ decoded, encodes _ _ encoded, ?_, ?_, refused, written,
    (only _ _ _ refused written).2⟩
  · rw [parses _ _ _ parsed]
    exact parsed
  · rw [clones _ _ _ cloned]
    exact cloned

end Conform
