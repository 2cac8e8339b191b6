import Conform.Proofs.Faults
import Conform.Proofs.Nearest
import Conform.Proofs.Reading
import Conform.Proofs.Writing

/-!
Decoding what was encoded. The text of a value, followed by a delimiter or by
nothing, is read as the normal form of the value and leaves what follows it. The
induction is on the value, with a room that serves writing and reading alike.
What JSON has can be written, and is its own normal form.
-/
namespace Conform

namespace Value

theorem mem_children_named {name : Option Nat} {kind : Mutability}
    {members : List (String × Value)} {w : Value}
    (child : w ∈ (map name kind (members.map named)).children) : ∃ m ∈ members, m.2 = w := by
  obtain ⟨e, entry, rfl⟩ := List.mem_map.mp child
  obtain ⟨m, member, rfl⟩ := List.mem_map.mp entry
  exact ⟨m, member, rfl⟩

theorem IsTree.every {p : Scalar → Prop} {q : Value → Prop} {v : Value} (tree : v.IsTree p)
    (leaf : ∀ a, p a → q (.scalar a)) (list : ∀ vs, q (.list vs)) (dict : ∀ es, q (.dict es)) :
    v.Every q := by
  induction tree with
  | scalar found => exact .scalar (leaf _ found)
  | list inside ih => exact .node (list _) ih
  | dict distinct inside ih =>
    refine .node (dict _) fun w child => ?_
    obtain ⟨m, member, rfl⟩ := mem_children_named child
    exact ih m member

theorem IsTree.acyclic {p : Scalar → Prop} {v : Value} (tree : v.IsTree p) : v.Acyclic :=
  tree.every (fun _ _ => trivial) (fun _ => trivial) fun _ => trivial

end Value

namespace Json

variable {allowNaN : Bool} {room : Nat} {text : List Char}

theorem readsAs_numeral {a : Scalar}
    (spelled : ∀ rest, Boundary rest →
      ∃ n : Numeral, numeral? (text ++ rest) = some (n, rest) ∧ n.value = a) :
    ReadsAs (readValue allowNaN room) text (.scalar a) := by
  apply readsAs_plain
  · obtain ⟨n, read, _⟩ := spelled [] (by intro c head; cases head)
    rw [List.append_nil] at read
    obtain ⟨negative, d, tail, form, digit⟩ := numeral?_head read
    cases negative with
    | true => exact ⟨'-', d :: tail, form, Or.inr (by decide)⟩
    | false => exact ⟨d, tail, form, Or.inl digit⟩
  · intro rest boundary
    obtain ⟨n, read, value⟩ := spelled rest boundary
    rw [plainValue_numeral read, value]

theorem integer_ok {n : Int} (written : integer n = .ok text) :
    text = Binary64.signed (n < 0) (Nat.toDigits 10 n.natAbs) := by
  unfold integer integerText at written
  split at written
  · rename_i shown
    split at shown
    · cases shown
      cases written
      by_cases negative : n < 0 <;> simp [Binary64.signed, negative]
    · cases shown
  · cases written

theorem readsAs_integer {n : Int} (written : integer n = .ok text) :
    ReadsAs (readValue allowNaN room) text (.scalar (plainInteger n)) := by
  rw [integer_ok written]
  exact readsAs_numeral fun rest boundary => numeral?_integer n boundary

theorem finiteFloat_ok {x : Binary64} (written : finiteFloat allowNaN x = .ok text) :
    text = floatText x ∧ (allowNaN = true ∨ x.isFinite = true) := by
  unfold finiteFloat at written
  split at written
  · rename_i allowed
    cases written
    exact ⟨rfl, by simpa using allowed⟩
  · cases written

theorem readsAs_float {x : Binary64} (written : finiteFloat allowNaN x = .ok text) :
    ReadsAs (readValue allowNaN room) text (.scalar (.float x)) := by
  obtain ⟨rfl, allowed⟩ := finiteFloat_ok written
  cases x with
  | finite negative m e canonical =>
    exact readsAs_numeral fun rest boundary => numeral?_finite negative canonical boundary
  | nan =>
    obtain rfl : allowNaN = true := by simpa [Binary64.isFinite] using allowed
    exact readsAs_plain ⟨'N', _, rfl, Or.inr (by decide)⟩ fun rest _ => rfl
  | infinite negative =>
    obtain rfl : allowNaN = true := by simpa [Binary64.isFinite] using allowed
    cases negative with
    | true => exact readsAs_plain ⟨'-', _, rfl, Or.inr (by decide)⟩ fun rest _ => rfl
    | false => exact readsAs_plain ⟨'I', _, rfl, Or.inr (by decide)⟩ fun rest _ => rfl

theorem readsAs_null : ReadsAs (readValue allowNaN room) "null".toList .null :=
  readsAs_plain ⟨'n', _, rfl, Or.inr (by decide)⟩ fun _ _ => rfl

theorem readsAs_bool (b : Bool) :
    ReadsAs (readValue allowNaN room) (boolText b) (.scalar (.bool b)) := by
  cases b with
  | true => exact readsAs_plain ⟨'t', _, rfl, Or.inr (by decide)⟩ fun _ _ => rfl
  | false => exact readsAs_plain ⟨'f', _, rfl, Or.inr (by decide)⟩ fun _ _ => rfl

theorem readsAs_string (s : String) :
    ReadsAs (readValue allowNaN room) (Text.jsonString s.toList) (.text s) := by
  have read : ReadsAs (readValue allowNaN room) (Text.jsonString s.toList)
      (.text (String.ofList s.toList)) := readsAs_text s.toList
  rwa [String.ofList_toList] at read

theorem readsAs_scalar {a : Scalar} (written : writeScalar (strict allowNaN) a = .ok text) :
    ReadsAs (readValue allowNaN room) text (.scalar a.normal) := by
  cases a with
  | undefined | null =>
    cases written
    exact readsAs_null
  | bool b =>
    cases written
    exact readsAs_bool b
  | int n => exact readsAs_integer written
  | float x => exact readsAs_float written
  | text s =>
    cases written
    exact readsAs_string s
  | symbol s =>
    obtain ⟨family, name, payload, transparent⟩ := s
    cases transparent with
    | false => cases payload <;> cases written
    | true => cases payload with
      | int n => exact readsAs_integer written
      | float x => exact readsAs_float written
      | text s =>
        cases written
        exact readsAs_string s
  | date d =>
    cases written
    exact readsAs_string d.iso
  | clock t =>
    cases written
    exact readsAs_string t.iso
  | moment m =>
    cases written
    exact readsAs_string m.iso
  | bytes b => cases written
  | token name => cases written

theorem keyText_ok {k : Key} (written : keyText (strict allowNaN) k = .ok text) :
    text = k.jsonName := by
  cases k with
  | tuple ks => cases written
  | scalar a =>
    unfold keyText at written
    simp only at written
    unfold Key.jsonName
    simp only
    split at written
    · cases written
      simp [*]
    · cases written
      simp [*]
    · simp [*, integer_ok written]
    · simp [*, (finiteFloat_ok written).1]
    · cases written
      simp [*]
    · cases written

theorem writeItems_related {items : List Value} {R : List Char → Value → Prop}
    (each : ∀ v ∈ items, ∀ text, obstacle? room v = none →
      write (strict allowNaN) v = .ok text → R text v.normal)
    (free : obstacleItems? room items = none) {texts : List (List Char)}
    (written : writeItems (strict allowNaN) items = .ok texts) :
    List.Forall₂ R texts (Value.normalItems items) := by
  induction items generalizing texts with
  | nil =>
    cases written
    exact .nil
  | cons v vs ih =>
    simp only [obstacleItems?] at free
    split at free
    · cases free
    · rename_i unobstructed
      simp only [writeItems, except_bind_ok_iff] at written
      obtain ⟨text, first, texts, rest, same⟩ := written
      cases same
      exact .cons (each v (by simp) text unobstructed first)
        (ih (fun w member => each w (List.mem_cons_of_mem v member)) free rest)

theorem writeEntries_related {entries : List (Key × Value)} {R : List Char → Value → Prop}
    (each : ∀ e ∈ entries, ∀ text, obstacle? room e.2 = none →
      write (strict allowNaN) e.2 = .ok text → R text e.2.normal)
    (free : obstacleEntries? room entries = none) {texts : List (List Char)}
    (written : writeEntries (strict allowNaN) entries = .ok texts) :
    List.Forall₂ (AsMember R) texts (Value.normalEntries entries) := by
  induction entries generalizing texts with
  | nil =>
    cases written
    exact .nil
  | cons e es ih =>
    obtain ⟨k, v⟩ := e
    have later := fun e member => each e (List.mem_cons_of_mem (k, v) member)
    simp only [obstacleEntries?] at free
    split at free
    · cases free
    · rename_i unobstructed
      by_cases absent : v.isUndefined = true
      · simp only [writeEntries, Value.normalEntries, if_pos absent] at written ⊢
        exact ih later free written
      · simp only [writeEntries, Value.normalEntries, if_neg absent, except_bind_ok_iff]
          at written ⊢
        obtain ⟨key, named, value, second, texts, rest, same⟩ := written
        cases same
        refine .cons ⟨key, value, rfl, ?_, each (k, v) (by simp) value unobstructed second⟩
          (ih later free rest)
        rw [keyText_ok named]

/-- What is written of a value is read as its normal form. -/
theorem readsAs_written (v : Value) {room : Nat} {text : List Char}
    (free : obstacle? room v = none) (written : write (strict allowNaN) v = .ok text) :
    ReadsAs (readValue allowNaN room) text v.normal := by
  induction v using Value.treeInduction generalizing room text with
  | scalar a => exact readsAs_scalar written
  | seq name kind items ih =>
    cases room with
    | zero => cases free
    | succ room =>
      simp only [write, except_bind_ok_iff] at written
      obtain ⟨texts, parts, same⟩ := written
      cases same
      exact readsAs_list (writeItems_related (fun v member _ => ih v member) free parts)
  | map name kind entries ih =>
    cases room with
    | zero => cases free
    | succ room =>
      simp only [write, except_bind_ok_iff] at written
      obtain ⟨texts, parts, same⟩ := written
      cases same
      exact readsAs_dict (writeEntries_related (fun e member _ => ih e member) free parts)
  | set member => cases written
  | again n => cases written

theorem encode_ok {v : Value} {r : Except EncodeError String}
    (encoded : encode allowNaN v = .ok r) :
    v.isUndefined = true ∧ r = .error .undefined ∨
      obstacle? nestingLimit v = some .circular ∧ r = .error .circular ∨
      obstacle? nestingLimit v = none ∧ v.isUndefined = false ∧
        r = (write (strict allowNaN) v).map String.ofList := by
  unfold encode at encoded
  split at encoded
  · rename_i absent
    cases encoded
    exact Or.inl ⟨absent, rfl⟩
  · rename_i present
    split at encoded
    · cases encoded
    · rename_i circular
      cases encoded
      exact Or.inr (Or.inl ⟨circular, rfl⟩)
    · rename_i free
      cases encoded
      exact Or.inr (Or.inr ⟨free, by simpa using present, rfl⟩)

theorem decode_of_read {c : Char} {cs : List Char} {v : Value} (opens : Opens c)
    (read : readValue allowNaN readingLimit (c :: cs) = .ok (v, [])) :
    decode allowNaN (.text (String.ofList (c :: cs))) = .ok (.ok v) := by
  have unmarked := opens.ne (d := byteOrderMark) (by decide) (by decide)
  have whole : readText allowNaN (c :: cs) = .ok v := by
    unfold readText
    rw [opens.skipBlanks, read]
    rfl
  have head : (c :: cs).head? ≠ some byteOrderMark := fun same => unmarked (Option.some.inj same)
  unfold decode
  simp only [Value.text?, Scalar.text?, Scalar.plain, String.toList_ofList, if_neg head]
  rw [decodeText, whole]

theorem decode_of_readsAs {text : List Char} {v : Value}
    (reads : ReadsAs (readValue allowNaN readingLimit) text v) :
    decode allowNaN (.text (String.ofList text)) = .ok (.ok v) := by
  obtain ⟨⟨c, cs, rfl, opens⟩, reads⟩ := reads
  have whole := reads [] (by intro d head; cases head)
  rw [List.append_nil] at whole
  exact decode_of_read opens whole

theorem encode_acyclic {v : Value} (present : v.isUndefined = false) (acyclic : v.Acyclic)
    (fits : v.depth ≤ nestingLimit) :
    encode allowNaN v = .ok ((write (strict allowNaN) v).map String.ofList) := by
  unfold encode
  rw [present, obstacle?_eq_none acyclic fits]
  rfl

theorem encode_circular {v : Value} (met : obstacle? nestingLimit v = some .circular) :
    encode allowNaN v = .ok (.error .circular) := by
  unfold encode
  rw [isUndefined_of_obstacle? met, met]
  rfl

theorem encode_of_deep {v : Value} (acyclic : v.Acyclic) (deep : nestingLimit < v.depth) :
    encode allowNaN v = .error .tooDeep := by
  have met := obstacle?_of_deep acyclic deep
  unfold encode
  rw [isUndefined_of_obstacle? met, met]
  rfl

theorem encode_written {v : Value} {text : String} (encoded : encode allowNaN v = .ok (.ok text)) :
    obstacle? nestingLimit v = none ∧
      ∃ cs, write (strict allowNaN) v = .ok cs ∧ text = String.ofList cs := by
  rcases encode_ok encoded with ⟨_, impossible⟩ | ⟨_, impossible⟩ | ⟨free, _, written⟩
  · cases impossible
  · cases impossible
  · cases shown : write (strict allowNaN) v with
    | error error =>
      rw [shown] at written
      cases written
    | ok cs =>
      rw [shown] at written
      exact ⟨free, cs, rfl, Except.ok.inj written⟩

theorem decode_encoded {v : Value} {text : String} (encoded : encode allowNaN v = .ok (.ok text)) :
    decode allowNaN (.text text) = .ok (.ok v.normal) := by
  obtain ⟨free, cs, written, rfl⟩ := encode_written encoded
  exact decode_of_readsAs
    (readsAs_written v (obstacle?_mono free nestingLimit_le_readingLimit) written)

theorem readValue_numeral {cs left : List Char} {n : Numeral}
    (spelled : numeral? cs = some (n, left)) :
    (∃ c tail, cs = c :: tail ∧ Opens c) ∧
      readValue allowNaN room cs = .ok (.scalar n.value, left) := by
  obtain ⟨c, tail, rfl, start⟩ : ∃ c tail, cs = c :: tail ∧ (c.isDigit ∨ c = '-') := by
    obtain ⟨negative, d, tail, form, digit⟩ := numeral?_head spelled
    cases negative with
    | true => exact ⟨'-', d :: tail, form, Or.inr rfl⟩
    | false => exact ⟨d, tail, form, Or.inl digit⟩
  have other : ∀ d, ¬ d.isDigit → d ≠ '-' → c ≠ d := by
    rintro d letter plain rfl
    exact start.elim letter plain
  have plain : readValue allowNaN room (c :: tail) = plainValue allowNaN (c :: tail) :=
    readValue_plain (other '"' (by decide) (by decide)) (other '[' (by decide) (by decide))
      (other '\x7b' (by decide) (by decide))
  exact ⟨⟨c, tail, rfl, start.imp_right fun sign => by rw [sign]; decide⟩,
    plain.trans (plainValue_numeral spelled)⟩

theorem decode_numeral (allowNaN : Bool) {cs : List Char} {n : Numeral}
    (spelled : numeral? cs = some (n, [])) :
    decode allowNaN (.text (String.ofList cs)) = .ok (.ok (.scalar n.value)) := by
  obtain ⟨⟨c, tail, rfl, opens⟩, read⟩ := readValue_numeral spelled
  exact decode_of_read opens read

theorem integer_safe {n : Int} (safe : n.natAbs ≤ maxSafeInteger) :
    ∃ text, integer n = .ok text := by
  have short : n.natAbs < Nat.pow 10 digitLimit := writableInteger_of_safe safe
  unfold integer integerText
  rw [if_pos short]
  exact ⟨_, rfl⟩

section

variable {d : Dialect}

theorem write_of_isTree {p : Scalar → Prop}
    (leaf : ∀ a, p a → a ≠ .undefined ∧ ∃ text, writeScalar d a = .ok text) {v : Value}
    (tree : v.IsTree p) : v.isUndefined = false ∧ ∃ text, write d v = .ok text := by
  induction tree with
  | @scalar a holds =>
    refine ⟨Bool.eq_false_iff.mpr fun absent => (leaf a holds).1 ?_, ?_⟩
    · unfold Value.isUndefined at absent
      split at absent
      · rename_i same
        exact Value.scalar.inj same
      · cases absent
    · simpa only [write] using (leaf a holds).2
  | list inside ih =>
    obtain ⟨texts, written⟩ := exists_writeItems_iff.mpr fun v member => (ih v member).2
    exact ⟨rfl, _, by simp [write, written, bind, Except.bind]; rfl⟩
  | @dict members distinct inside ih =>
    have each : ∃ texts, writeEntries d (members.map Value.named) = .ok texts := by
      apply exists_writeEntries_iff.mpr
      intro e member _
      obtain ⟨m, listed, rfl⟩ := List.mem_map.mp member
      exact ⟨⟨_, rfl⟩, (ih m listed).2⟩
    obtain ⟨texts, written⟩ := each
    exact ⟨rfl, _, by simp [write, written, bind, Except.bind]; rfl⟩

end

theorem writeScalar_of_isJson (allowNaN : Bool) (a : Scalar) (json : a.IsJson) :
    a ≠ .undefined ∧ ∃ text, writeScalar (strict allowNaN) a = .ok text := by
  refine ⟨fun absent => ?_, ?_⟩
  · subst absent
    exact json
  · cases a with
    | int n => simpa only [writeScalar, Scalar.plain] using integer_safe json
    | float x =>
      have finite : x.isFinite = true := json
      exact ⟨floatText x, by simp [writeScalar, Scalar.plain, strict, finiteFloat, finite]⟩
    | null | bool | text => exact ⟨_, rfl⟩
    | _ => cases json

theorem write_of_isJson (allowNaN : Bool) {v : Value} (json : v.IsJson) :
    ∃ text, write (strict allowNaN) v = .ok text :=
  (write_of_isTree (writeScalar_of_isJson allowNaN) json.isTree).2

theorem encode_of_isJson (allowNaN : Bool) {v : Value} (json : v.IsJson)
    (fits : v.depth ≤ nestingLimit) : ∃ t, encode allowNaN v = .ok (.ok t) := by
  obtain ⟨text, written⟩ := write_of_isJson allowNaN json
  rw [encode_acyclic json.isUndefined json.isTree.acyclic fits, written]
  exact ⟨_, rfl⟩

theorem plainInteger_isRounded {n : Int} (past : maxSafeInteger < n.natAbs) :
    ∃ x, plainInteger n = .float x ∧ Binary64.IsRounded n x := by
  refine ⟨Binary64.ofInt n, if_neg (by omega), ?_⟩
  apply Binary64.ofInt_isRounded
  intro zero
  rw [zero] at past
  exact absurd past (by decide)

/-- Decoding undoes encoding up to the normal form, in which an integer that is not safe
    is the number nearest to it. The values that JSON has are encoded, as far as their nesting
    is followed, and come back as they are. -/
theorem decode_encode (allowNaN : Bool) (v : Value) :
    (∀ t, encode allowNaN v = .ok (.ok t) → decode allowNaN (.text t) = .ok (.ok v.normal)) ∧
      (v.IsJson → v.depth ≤ nestingLimit →
        ∃ t, encode allowNaN v = .ok (.ok t) ∧ decode allowNaN (.text t) = .ok (.ok v)) ∧
      ∀ n : Int, maxSafeInteger < n.natAbs → ∃ x : Binary64,
        (Value.scalar (.int n)).normal = .scalar (.float x) ∧ Binary64.IsRounded n x := by
  refine ⟨fun t => decode_encoded, fun json fits => ?_, fun n past => ?_⟩
  · obtain ⟨t, encoded⟩ := encode_of_isJson allowNaN json fits
    have decoded := decode_encoded encoded
    rw [Value.normal_of_isJson json] at decoded
    exact ⟨t, encoded, decoded⟩
  · obtain ⟨x, float, nearest⟩ := plainInteger_isRounded past
    exact ⟨x, congrArg Value.scalar float, nearest⟩

/-- A read-only map with an undefined entry, a symbol for a key and two keys that are
    written alike. -/
def layered : Value :=
  .map none .frozen [
    (.scalar (.text "true"), .null),
    (.scalar (.symbol ⟨"Side", "LEFT", .text "left", true⟩), .tuple [.undefined, .text "a\n"]),
    (.scalar (.bool true), .scalar (.float (.infinite true))),
    (.scalar .null, .undefined)]

def flat : Value := .dict ([("left", .list [.null, .text "a\n"])].map Value.named)

theorem flat_isJson : flat.IsJson := by
  apply Value.IsJson.dict (by simp)
  intro m member
  obtain rfl := List.mem_singleton.mp member
  apply Value.IsJson.list
  intro v member
  rcases List.mem_cons.mp member with rfl | member
  · exact .scalar trivial
  · obtain rfl := List.mem_singleton.mp member
    exact .scalar trivial

theorem layered_decodes :
    encode true layered =
        .ok (.ok "\x7b\"true\":null,\"left\":[null,\"a\\n\"],\"true\":-Infinity\x7d") ∧
      decode true (.text "\x7b\"true\":null,\"left\":[null,\"a\\n\"],\"true\":-Infinity\x7d") =
        .ok (.ok (.dict ([("true", .scalar (.float (.infinite true))),
          ("left", .list [.null, .text "a\n"])].map Value.named))) ∧
      (∃ t, encode false flat = .ok (.ok t) ∧ decode false (.text t) = .ok (.ok flat)) ∧
      ∃ x : Binary64, (Value.scalar (.int 9007199254740993)).normal = .scalar (.float x) ∧
        Binary64.IsRounded (9007199254740993 : Int) x :=
  ⟨rfl, (decode_encode true layered).1 _ rfl,
    (decode_encode false flat).2.1 flat_isJson (by decide),
    (decode_encode true layered).2.2 9007199254740993 (by decide)⟩

end Json
end Conform
