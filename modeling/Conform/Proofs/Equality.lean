import Conform.Proofs.Meaning
import Conform.Proofs.Nesting
import Conform.TypeExpr.Basic

/-!
Equality carried over from one value to the next. Numbers are equal when they
stand for one exact magnitude, so equality of scalars is transitive although it
is not reflexive. For values that can be hashed this lifts to tuples, within the
same bound on nesting.
-/
namespace Conform

/-- What a number is compared by; a `nan` has nothing of the kind. -/
inductive Magnitude where
  | finite (q : Rat)
  | infinite (negative : Bool)

namespace Binary64

def magnitude? : Binary64 → Option Magnitude
  | .nan => none
  | .infinite negative => some (.infinite negative)
  | x => x.toRat?.map .finite

theorem toRat?_finite (negative : Bool) {m : Nat} {e : Int} (canonical : Canonical m e) :
    ∃ q, toRat? (.finite negative m e canonical) = some q := by
  cases negative <;> exact ⟨_, rfl⟩

theorem sameInt_iff {x : Binary64} {n : Int} :
    x.sameInt n = true ↔ x.magnitude? = some (.finite n) := by
  cases x with
  | nan | infinite => simp [sameInt, toRat?, magnitude?]
  | finite negative m e canonical =>
    obtain ⟨q, value⟩ := toRat?_finite negative canonical
    simp [sameInt, magnitude?, value]

theorem same_iff {x y : Binary64} :
    x.same y = true ↔ ∃ p, x.magnitude? = some p ∧ y.magnitude? = some p := by
  cases x with
  | nan => simp [same, toRat?, magnitude?]
  | infinite s => cases y with
    | nan => simp [same, toRat?, magnitude?]
    | infinite t =>
      simp only [same, beq_iff_eq, magnitude?, Option.some.injEq, exists_eq_left',
        Magnitude.infinite.injEq]
      exact eq_comm
    | finite negative m e canonical => simp [same, toRat?, magnitude?]
  | finite negative m e canonical =>
    obtain ⟨q, value⟩ := toRat?_finite negative canonical
    cases y with
    | nan => simp [same, toRat?, magnitude?]
    | infinite t => simp [same, toRat?, magnitude?]
    | finite negative' m' e' canonical' =>
      obtain ⟨q', value'⟩ := toRat?_finite negative' canonical'
      simp only [same, magnitude?, value, value', beq_iff_eq, Option.map_some,
        Option.some.injEq, exists_eq_left', Magnitude.finite.injEq]
      exact eq_comm

end Binary64

namespace Number

def magnitude? : Number → Option Magnitude
  | .int n => some (.finite n)
  | .float x => x.magnitude?

theorem same_iff {m n : Number} :
    m.same n = true ↔ ∃ p, m.magnitude? = some p ∧ n.magnitude? = some p := by
  cases m with
  | int a => cases n with
    | int b =>
      rw [same, beq_iff_eq]
      refine ⟨fun same => ⟨_, rfl, same ▸ rfl⟩, fun ⟨p, first, second⟩ => ?_⟩
      cases first
      simp only [magnitude?, Option.some.injEq, Magnitude.finite.injEq] at second
      exact (Rat.intCast_inj.mp second).symm
    | float y => simp [same, magnitude?, Binary64.sameInt_iff]
  | float x => cases n with
    | int b => simp [same, magnitude?, Binary64.sameInt_iff]
    | float y => exact Binary64.same_iff

theorem same_trans {l m n : Number} (first : l.same m = true) (second : m.same n = true) :
    l.same n = true := by
  obtain ⟨p, left, middle⟩ := same_iff.mp first
  obtain ⟨q, middle', right⟩ := same_iff.mp second
  cases middle.symm.trans middle'
  exact same_iff.mpr ⟨p, left, right⟩

end Number

theorem Clock.same_trans {t u w : Clock} (first : t.same u = true) (second : u.same w = true) :
    t.same w = true := by
  unfold Clock.same at *
  cases left : t.offset <;> cases middle : u.offset <;> cases right : w.offset <;>
    simp_all

theorem Moment.same_trans {l m n : Moment} (first : l.same m = true) (second : m.same n = true) :
    l.same n = true := by
  unfold Moment.same at *
  cases left : l.clock.offset <;> cases middle : m.clock.offset <;>
    cases right : n.clock.offset <;> simp_all

namespace Scalar

theorem same_number {a b : Scalar} {m : Number} (number : a.number? = some m) :
    a.same b = true ↔ ∃ n, b.number? = some n ∧ m.same n = true := by
  unfold same
  rw [number]
  cases b.number? <;> simp

theorem same_text {a b : Scalar} {s : String} (number : a.number? = none)
    (text : a.text? = some s) :
    a.same b = true ↔ b.number? = none ∧ b.text? = some s := by
  unfold same
  rw [number, text]
  cases b.number? with
  | some n => simp
  | none => cases b.text? with
    | none => simp
    | some t =>
      simp only [beq_iff_eq, true_and, Option.some.injEq]
      exact eq_comm

theorem same_other {a b : Scalar} (number : a.number? = none) (text : a.text? = none) :
    a.same b = true ↔ b.number? = none ∧ b.text? = none ∧
      ((∃ t u, a = .clock t ∧ b = .clock u ∧ t.same u = true) ∨
        (∃ m n, a = .moment m ∧ b = .moment n ∧ m.same n = true) ∨
        (∀ name, a ≠ .token name) ∧ (∀ t, a ≠ .clock t) ∧ (∀ m, a ≠ .moment m) ∧ a = b) := by
  unfold same
  rw [number, text]
  cases second : b.number? with
  | some n => simp
  | none => cases third : b.text? with
    | some s => simp
    | none =>
      simp only [true_and]
      split
      · refine iff_of_false (by simp) ?_
        rintro (⟨_, _, same, _⟩ | ⟨_, _, same, _⟩ | ⟨other, _⟩)
        · cases same
        · cases same
        · exact other _ rfl
      · rename_i t u
        refine ⟨fun same => Or.inl ⟨t, u, rfl, rfl, same⟩, ?_⟩
        rintro (⟨_, _, left, right, same⟩ | ⟨_, _, left, _⟩ | ⟨_, other, _⟩)
        · cases left
          cases right
          exact same
        · cases left
        · exact absurd rfl (other t)
      · rename_i m n
        refine ⟨fun same => Or.inr (Or.inl ⟨m, n, rfl, rfl, same⟩), ?_⟩
        rintro (⟨_, _, left, _⟩ | ⟨_, _, left, right, same⟩ | ⟨_, _, other, _⟩)
        · cases left
        · cases left
          cases right
          exact same
        · exact absurd rfl (other m)
      · rename_i token clock moment
        rw [decide_eq_true_iff]
        constructor
        · rintro rfl
          exact Or.inr (Or.inr ⟨fun name same => token name name same same,
            fun t same => clock t t same same, fun m same => moment m m same same, rfl⟩)
        · rintro (⟨t, u, left, right, _⟩ | ⟨m, n, left, right, _⟩ | ⟨_, _, _, same⟩)
          · exact absurd right (clock t u left)
          · exact absurd right (moment m n left)
          · exact same

theorem same_trans {a b c : Scalar} (first : a.same b = true) (second : b.same c = true) :
    a.same c = true := by
  cases number : a.number? with
  | some l =>
    obtain ⟨m, middle, left⟩ := (same_number number).mp first
    obtain ⟨n, last, right⟩ := (same_number middle).mp second
    exact (same_number number).mpr ⟨n, last, Number.same_trans left right⟩
  | none => cases text : a.text? with
    | some s =>
      obtain ⟨none, middle⟩ := (same_text number text).mp first
      exact (same_text number text).mpr ((same_text none middle).mp second)
    | none =>
      obtain ⟨number', text', middle⟩ := (same_other number text).mp first
      obtain ⟨number'', text'', last⟩ := (same_other number' text').mp second
      refine (same_other number text).mpr ⟨number'', text'', ?_⟩
      rcases middle with ⟨t, u, rfl, rfl, left⟩ | ⟨m, n, rfl, rfl, left⟩ | ⟨token, clock, moment, rfl⟩
      · rcases last with ⟨_, w, same, rfl, right⟩ | ⟨_, _, same, _⟩ | ⟨_, other, _⟩
        · cases same
          exact Or.inl ⟨t, w, rfl, rfl, Clock.same_trans left right⟩
        · cases same
        · exact absurd rfl (other u)
      · rcases last with ⟨_, _, same, _⟩ | ⟨_, o, same, rfl, right⟩ | ⟨_, _, other, _⟩
        · cases same
        · cases same
          exact Or.inr (Or.inl ⟨m, o, rfl, rfl, Moment.same_trans left right⟩)
        · exact absurd rfl (other n)
      · exact last

end Scalar

theorem Key.same_text_iff {k : Key} {s : String} :
    k.same (.scalar (.text s)) = true ↔ k.text? = some s := by
  cases k with
  | tuple ks => simp [Key.same, Key.text?]
  | scalar a =>
    change a.same (.text s) = true ↔ a.text? = some s
    cases number : a.number? with
    | some n =>
      have numeral : a.text? = none := by
        unfold Scalar.number? at number
        unfold Scalar.text?
        split at number <;> simp_all
      rw [Scalar.same_number number, numeral]
      simp [Scalar.number?, Scalar.plain]
    | none =>
      cases text : a.text? with
      | some t =>
        rw [Scalar.same_text number text]
        simp [Scalar.number?, Scalar.text?, Scalar.plain, eq_comm]
      | none =>
        rw [Scalar.same_other number text]
        simp [Scalar.text?, Scalar.plain]

theorem valueUnder?_of_text {es : List (Key × Value)}
    (distinct : (es.map fun e => e.1.text?).Nodup) {e : Key × Value} (member : e ∈ es) {s : String}
    (text : e.1.text? = some s) : valueUnder? es (.scalar (.text s)) = some e.2 := by
  induction es with
  | nil => cases member
  | cons f fs ih =>
    obtain ⟨fresh, distinct⟩ := List.nodup_cons.mp distinct
    rw [valueUnder?_cons]
    rcases List.mem_cons.mp member with rfl | later
    · rw [if_pos (Key.same_text_iff.mpr text)]
    · have other : ¬ f.1.same (.scalar (.text s)) = true := fun same =>
        fresh (List.mem_map.mpr ⟨e, later, text.trans (Key.same_text_iff.mp same).symm⟩)
      rw [if_neg other]
      exact ih distinct later

theorem allSame_true_iff {same : Value → Value → Except Fault Bool} {vs ws : List Value} :
    allSame same vs ws = .ok true ↔ List.Forall₂ (fun v w => same v w = .ok true) vs ws := by
  induction vs generalizing ws with
  | nil => cases ws <;> simp [allSame]
  | cons v vs ih => cases ws with
    | nil => simp [allSame]
    | cons w ws =>
      rw [allSame, except_bind_ok_iff, List.forall₂_cons]
      constructor
      · rintro ⟨equal, first, rest⟩
        cases equal with
        | true => exact ⟨first, ih.mp rest⟩
        | false => cases rest
      · rintro ⟨first, rest⟩
        exact ⟨true, first, ih.mpr rest⟩

theorem allFound_true_iff {same : Value → Value → Except Fault Bool}
    {others es : List (Key × Value)} :
    allFound same others es = .ok true ↔
      ∀ e ∈ es, ∃ w, valueUnder? others e.1 = some w ∧ same e.2 w = .ok true := by
  induction es with
  | nil => simp [allFound]
  | cons e es ih =>
    rw [List.forall_mem_cons, ← ih, allFound]
    cases found : valueUnder? others e.1 with
    | none => simp
    | some w =>
      simp only [except_bind_ok_iff, Option.some.injEq, exists_eq_left']
      constructor
      · rintro ⟨equal, first, rest⟩
        cases equal with
        | true => exact ⟨first, rest⟩
        | false => cases rest
      · rintro ⟨first, rest⟩
        exact ⟨true, first, rest⟩

namespace Value

theorem unhashableItem?_iff {vs : List Value} :
    unhashableItem? vs = none ↔ ∀ v ∈ vs, unhashable? v = none := by
  induction vs with
  | nil => simp [unhashableItem?]
  | cons v vs ih =>
    rw [unhashableItem?, List.forall_mem_cons]
    cases unhashable? v with
    | some type => simp
    | none => simpa using ih

/-- A value that can be hashed holds no name of a container. -/
theorem fill_of_hashable {n : Nat} {c v : Value} (hashable : unhashable? v = none) :
    fill n c v = v := by
  induction v using treeInduction with
  | scalar a => rfl
  | seq name kind items ih =>
    cases kind with
    | mutable => simp [unhashable?] at hashable
    | frozen =>
      have inside := unhashableItem?_iff.mp hashable
      rw [fill]
      split
      · rfl
      · congr 1
        clear hashable
        induction items with
        | nil => rfl
        | cons v vs tail =>
          rw [fillItems, ih v (by simp) (inside v (by simp)),
            tail (fun w member => ih w (List.mem_cons_of_mem v member))
              fun w member => inside w (List.mem_cons_of_mem v member)]
  | _ => simp [unhashable?] at hashable

theorem items_of_hashable {name : Option Nat} {xs : List Value}
    (hashable : unhashable? (.seq name .frozen xs) = none) : items name .frozen xs = xs := by
  cases name with
  | none => rfl
  | some n =>
    have inside := unhashableItem?_iff.mp hashable
    change fillItems n (.seq (some n) .frozen xs) xs = xs
    clear hashable
    generalize Value.seq (some n) .frozen xs = c
    induction xs with
    | nil => rfl
    | cons v vs ih =>
      rw [fillItems, fill_of_hashable (inside v (by simp)),
        ih fun w member => inside w (List.mem_cons_of_mem v member)]

theorem sameUpTo_seqs (room : Nat) (m n : Option Nat) (j k : Mutability) (xs ys : List Value) :
    sameUpTo (room + 1) (.seq m j xs) (.seq n k ys) =
      if j ≠ k ∨ j = .mutable ∧ xs.length ≠ ys.length then .ok false
      else allSame (sameUpTo room) (items m j xs) (items n k ys) :=
  rfl

theorem sameUpTo_maps (room : Nat) (m n : Option Nat) (j k : Mutability)
    (es fs : List (Key × Value)) :
    sameUpTo (room + 1) (.map m j es) (.map n k fs) =
      if es.length ≠ fs.length then .ok false
      else match k with
        | .mutable => allFound (sameUpTo room) (entries n k fs) (entries m j es)
        | .frozen => allFound (sameUpTo room) (entries m j es) (entries n k fs) := by
  cases k <;> rfl

theorem sameUpTo_seq {room : Nat} {m n : Option Nat} {j k : Mutability} {xs ys : List Value} :
    sameUpTo room (.seq m j xs) (.seq n k ys) = .ok true ↔ ∃ left, room = left + 1 ∧ j = k ∧
      List.Forall₂ (fun x y => sameUpTo left x y = .ok true) (items m j xs) (items n k ys) := by
  cases room with
  | zero =>
    rw [sameUpTo]
    split <;> simp
  | succ left =>
    simp only [Nat.add_right_cancel_iff, exists_eq_left']
    rw [sameUpTo_seqs]
    split
    · rename_i differ
      refine iff_of_false (by simp) ?_
      rintro ⟨rfl, related⟩
      have lengths := related.length_eq
      rw [length_items, length_items] at lengths
      simp [lengths] at differ
    · rename_i alike
      have kinds : j = k := not_not.mp fun other => alike (Or.inl other)
      simp only [kinds, true_and]
      exact allSame_true_iff

def AllFound (room : Nat) (others es : List (Key × Value)) : Prop :=
  ∀ e ∈ es, ∃ x, valueUnder? others e.1 = some x ∧ sameUpTo room e.2 x = .ok true

theorem allFound_iff {room : Nat} {others es : List (Key × Value)} :
    allFound (sameUpTo room) others es = .ok true ↔ AllFound room others es :=
  allFound_true_iff

theorem sameUpTo_map {room : Nat} {m n : Option Nat} {j k : Mutability}
    {es fs : List (Key × Value)} :
    sameUpTo room (.map m j es) (.map n k fs) = .ok true ↔
      ∃ left, room = left + 1 ∧ es.length = fs.length ∧ match k with
        | .mutable => AllFound left (entries n k fs) (entries m j es)
        | .frozen => AllFound left (entries m j es) (entries n k fs) := by
  cases room with
  | zero => cases k <;> by_cases lengths : es.length = fs.length <;> simp [sameUpTo, lengths]
  | succ left =>
    simp only [Nat.add_right_cancel_iff, exists_eq_left']
    rw [sameUpTo_maps]
    by_cases lengths : es.length = fs.length
    · cases k <;> simp [lengths, allFound_iff]
    · simp [lengths]

theorem sameUpTo_scalar {room : Nat} {a : Scalar} {w : Value} :
    sameUpTo room (.scalar a) w = .ok true ↔ ∃ b, w = .scalar b ∧ a.same b = true := by
  cases w <;> cases room <;> simp [sameUpTo]

theorem sameUpTo_tuple {room : Nat} {name : Option Nat} {xs : List Value} {w : Value} :
    sameUpTo room (.seq name .frozen xs) w = .ok true ↔ ∃ left n ys, room = left + 1 ∧
      w = .seq n .frozen ys ∧ List.Forall₂ (fun x y => sameUpTo left x y = .ok true)
        (items name .frozen xs) (items n .frozen ys) := by
  simp only [← allSame_true_iff]
  cases w with
  | seq n kind ys => cases kind <;> cases room <;> simp [sameUpTo]
  | _ => cases room <;> simp [sameUpTo]

/-- Equality is handed on from a value that can be hashed to any other. -/
theorem sameUpTo_trans {room : Nat} {a b c : Value} (hashable : unhashable? a = none)
    (hashable' : unhashable? b = none) (first : sameUpTo room a b = .ok true)
    (second : sameUpTo room b c = .ok true) : sameUpTo room a c = .ok true := by
  induction a using treeInduction generalizing room b c with
  | scalar a =>
    obtain ⟨b, rfl, left⟩ := sameUpTo_scalar.mp first
    obtain ⟨c, rfl, right⟩ := sameUpTo_scalar.mp second
    exact sameUpTo_scalar.mpr ⟨c, rfl, Scalar.same_trans left right⟩
  | seq name kind xs ih =>
    cases kind with
    | mutable => simp [unhashable?] at hashable
    | frozen =>
      obtain ⟨left, n, ys, rfl, rfl, lower⟩ := sameUpTo_tuple.mp first
      obtain ⟨_, p, zs, same, rfl, upper⟩ := sameUpTo_tuple.mp second
      cases same
      refine sameUpTo_tuple.mpr ⟨left, p, zs, rfl, rfl, ?_⟩
      rw [items_of_hashable hashable, items_of_hashable hashable'] at lower
      rw [items_of_hashable hashable'] at upper
      rw [items_of_hashable hashable]
      have inside := unhashableItem?_iff.mp hashable
      have inside' := unhashableItem?_iff.mp hashable'
      clear hashable hashable' first second
      generalize items p .frozen zs = targets at upper ⊢
      induction lower generalizing targets with
      | nil => simpa using upper
      | @cons x y xs ys head tail step =>
        cases upper with
        | cons head' tail' =>
          rw [List.forall_mem_cons] at inside inside'
          exact .cons (ih x (by simp) inside.1 inside'.1 head head')
            (step (fun v member => ih v (List.mem_cons_of_mem x member)) inside.2 inside'.2 _ tail')
  | _ => simp [unhashable?] at hashable

theorem Matches.of_sameTyped {c d v : Value} (hashable : unhashable? c = none)
    (hashable' : unhashable? d = none) (same : c.sameTyped d = true) (found : d.Matches v) :
    c.Matches v := by
  unfold sameTyped at same
  simp only [Bool.and_eq_true, decide_eq_true_iff] at same
  obtain ⟨⟨_, kind⟩, equal⟩ := same
  refine ⟨kind.trans found.1, ?_⟩
  split at equal
  · rename_i verdict compared
    subst equal
    exact sameUpTo_trans hashable hashable' compared found.2
  · cases equal

end Value
end Conform
