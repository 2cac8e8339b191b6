import Conform.Proofs.Nesting
import Conform.Proofs.Normal
import Conform.Proofs.Verdict

/-!
How a value is written part by part. It has a text where all that is in it has one, and
each text in a container is written of the part at its place. Two writers that differ in
what they do with numbers that are not finite write alike, up to the first of these, where
the strict one stops.
-/
namespace Conform

/-- Two computations end alike, unless the first stops with an error of this kind. -/
def AlikeUnless {ε α : Type} (p : ε → Prop) (x y : Except ε α) : Prop :=
  x = y ∨ ∃ e, x = .error e ∧ p e

section

variable {ε α β : Type} {p : ε → Prop} {x y : Except ε α}

theorem alikeUnless_self (x : Except ε α) : AlikeUnless p x x := Or.inl rfl

theorem AlikeUnless.bind {next other : α → Except ε β} (first : AlikeUnless p x y)
    (rest : ∀ a, AlikeUnless p (next a) (other a)) :
    AlikeUnless p (x >>= next) (y >>= other) := by
  rcases first with same | ⟨e, stopped, kind⟩
  · subst same
    cases x with
    | error e => exact Or.inl rfl
    | ok a => exact rest a
  · subst stopped
    exact Or.inr ⟨e, rfl, kind⟩

end

namespace Json

variable {d : Dialect} {v : Value}

theorem exists_bind_ok_iff {ε α β : Type} {x : Except ε α} {f : α → β} :
    (∃ b, (x >>= fun a => .ok (f a)) = .ok b) ↔ ∃ a, x = .ok a := by
  cases x <;> simp [bind, Except.bind]

theorem exists_writeItems_iff {d : Dialect} {vs : List Value} :
    (∃ texts, writeItems d vs = .ok texts) ↔ ∀ v ∈ vs, ∃ text, write d v = .ok text := by
  induction vs with
  | nil => exact ⟨fun _ => List.forall_mem_nil _, fun _ => ⟨[], rfl⟩⟩
  | cons v vs ih =>
    rw [List.forall_mem_cons, ← ih]
    constructor
    · rintro ⟨texts, written⟩
      simp only [writeItems, except_bind_ok_iff] at written
      obtain ⟨text, first, rest, others, _⟩ := written
      exact ⟨⟨text, first⟩, ⟨rest, others⟩⟩
    · rintro ⟨⟨text, first⟩, ⟨rest, others⟩⟩
      exact ⟨text :: rest, by rw [writeItems, first, others]; rfl⟩

theorem exists_writeEntries_iff {d : Dialect} {es : List (Key × Value)} :
    (∃ texts, writeEntries d es = .ok texts) ↔ ∀ e ∈ es, e.2.isUndefined = false →
      (∃ name, keyText d e.1 = .ok name) ∧ ∃ text, write d e.2 = .ok text := by
  induction es with
  | nil => exact ⟨fun _ => List.forall_mem_nil _, fun _ => ⟨[], rfl⟩⟩
  | cons e es ih =>
    obtain ⟨k, v⟩ := e
    rw [List.forall_mem_cons, ← ih, writeEntries]
    cases absent : v.isUndefined with
    | true => simp
    | false =>
      rw [if_neg (by simp)]
      constructor
      · rintro ⟨texts, written⟩
        simp only [except_bind_ok_iff] at written
        obtain ⟨name, key, text, first, rest, others, _⟩ := written
        exact ⟨fun _ => ⟨⟨name, key⟩, ⟨text, first⟩⟩, ⟨rest, others⟩⟩
      · rintro ⟨entry, ⟨rest, others⟩⟩
        obtain ⟨⟨name, key⟩, ⟨text, first⟩⟩ := entry rfl
        exact ⟨_, by rw [key, first, others]; rfl⟩

/-- The dialect has a text for the value as far as it does not depend on what is inside it. -/
def Dialect.Writes (d : Dialect) : Value → Prop
  | .scalar a => ∃ text, writeScalar d a = .ok text
  | .seq .. => True
  | .map _ _ es => ∀ e ∈ es, e.2.isUndefined = false → ∃ text, keyText d e.1 = .ok text
  | .set member => ∃ text, d.leaf (.set member) = .ok text
  | .again _ => False

theorem exists_write_iff : (∃ text, write d v = .ok text) ↔ v.Every d.Writes := by
  induction v using Value.treeInduction with
  | scalar a =>
    exact ⟨fun written => .scalar written, Value.Every.at_root⟩
  | set member =>
    exact ⟨fun written => .node written (List.forall_mem_nil _), Value.Every.at_root⟩
  | again n =>
    exact iff_of_false (by rintro ⟨_, ⟨⟩⟩) fun all => all.at_root
  | seq name kind items ih =>
    rw [write, exists_bind_ok_iff, exists_writeItems_iff]
    constructor
    · exact fun each => .node trivial fun v member => (ih v member).mp (each v member)
    · exact fun all v member => (ih v member).mpr (all.at_child member)
  | map name kind es ih =>
    rw [write, exists_bind_ok_iff, exists_writeEntries_iff]
    constructor
    · intro each
      refine .node (fun e member present => (each e member present).1) fun w child => ?_
      obtain ⟨e, member, rfl⟩ := List.mem_map.mp child
      cases absent : e.2.isUndefined with
      | true =>
        rw [Value.isUndefined_iff.mp absent]
        exact .scalar ⟨_, rfl⟩
      | false => exact (ih e member).mp (each e member absent).2
    · exact fun all e member present => ⟨all.at_root e member present,
        (ih e member).mpr (all.at_child (Value.mem_children_of_entry member))⟩

theorem writeItems_each {d : Dialect} {items : List Value} {texts : List (List Char)}
    (written : writeItems d items = .ok texts) :
    List.Forall₂ (fun text v => v ∈ items ∧ write d v = .ok text) texts items := by
  induction items generalizing texts with
  | nil =>
    cases written
    exact .nil
  | cons v vs ih =>
    simp only [writeItems, except_bind_ok_iff] at written
    obtain ⟨text, first, rest, others, same⟩ := written
    cases same
    apply List.Forall₂.cons
    · exact ⟨by simp, first⟩
    · apply (ih others).imp
      intro text w part
      exact ⟨List.mem_cons_of_mem v part.1, part.2⟩

theorem writeMembers_each {d : Dialect} {members : List (String × Value)}
    {texts : List (List Char)} (present : ∀ m ∈ members, m.2.isUndefined = false)
    (written : writeEntries d (members.map Value.named) = .ok texts) :
    List.Forall₂ (fun text m => m ∈ members ∧ ∃ value,
      text = Text.jsonString m.1.toList ++ ':' :: value ∧ write d m.2 = .ok value)
      texts members := by
  induction members generalizing texts with
  | nil =>
    cases written
    exact .nil
  | cons m ms ih =>
    rw [List.forall_mem_cons] at present
    rw [List.map_cons, Value.named, writeEntries, present.1, if_neg (by simp)] at written
    simp only [except_bind_ok_iff] at written
    obtain ⟨key, name, value, first, rest, others, same⟩ := written
    cases same
    cases name
    apply List.Forall₂.cons
    · exact ⟨by simp, value, rfl, first⟩
    · apply (ih present.2 others).imp
      intro text n part
      exact ⟨List.mem_cons_of_mem m part.1, part.2⟩

theorem finiteFloat_alike (x : Binary64) :
    AlikeUnless (· = EncodeError.notFinite) (finiteFloat false x) (finiteFloat true x) := by
  unfold finiteFloat
  cases finite : x.isFinite with
  | true => exact Or.inl rfl
  | false => exact Or.inr ⟨.notFinite, rfl, rfl⟩

theorem writeScalar_alike (a : Scalar) :
    AlikeUnless (· = EncodeError.notFinite) (writeScalar (strict false) a)
      (writeScalar (strict true) a) := by
  unfold writeScalar
  cases a.plain with
  | float x => exact finiteFloat_alike x
  | _ => exact alikeUnless_self _

theorem keyText_alike (k : Key) :
    AlikeUnless (· = EncodeError.notFinite) (keyText (strict false) k)
      (keyText (strict true) k) := by
  unfold keyText
  cases k with
  | tuple ks => exact alikeUnless_self _
  | scalar a =>
    dsimp only
    cases a.plain with
    | float x => exact finiteFloat_alike x
    | _ => exact alikeUnless_self _

theorem writeItems_alike {items : List Value}
    (each : ∀ v ∈ items, AlikeUnless (· = EncodeError.notFinite) (write (strict false) v)
      (write (strict true) v)) :
    AlikeUnless (· = EncodeError.notFinite) (writeItems (strict false) items)
      (writeItems (strict true) items) := by
  induction items with
  | nil => exact alikeUnless_self _
  | cons v vs ih =>
    rw [List.forall_mem_cons] at each
    apply each.1.bind
    intro text
    apply (ih each.2).bind
    intro texts
    exact alikeUnless_self _

theorem writeEntries_alike {es : List (Key × Value)}
    (each : ∀ e ∈ es, AlikeUnless (· = EncodeError.notFinite) (write (strict false) e.2)
      (write (strict true) e.2)) :
    AlikeUnless (· = EncodeError.notFinite) (writeEntries (strict false) es)
      (writeEntries (strict true) es) := by
  induction es with
  | nil => exact alikeUnless_self _
  | cons e es ih =>
    rw [List.forall_mem_cons] at each
    unfold writeEntries
    split
    · exact ih each.2
    · apply (keyText_alike e.1).bind
      intro key
      apply each.1.bind
      intro text
      apply (ih each.2).bind
      intro texts
      exact alikeUnless_self _

theorem write_alike (v : Value) :
    AlikeUnless (· = EncodeError.notFinite) (write (strict false) v) (write (strict true) v) := by
  induction v using Value.treeInduction with
  | scalar a => exact writeScalar_alike a
  | seq name kind items ih =>
    apply (writeItems_alike ih).bind
    intro texts
    exact alikeUnless_self _
  | map name kind es ih =>
    apply (writeEntries_alike ih).bind
    intro texts
    exact alikeUnless_self _
  | set => exact alikeUnless_self _
  | again => exact alikeUnless_self _

end Json
end Conform
