import Conform.Proofs.Equality
import Mathlib.Data.List.Induction

/-!
Keys of maps. Equality of keys is symmetric and transitive, so a map in which no two
keys are equal has at most one entry under any key, and which entry is found there does
not depend on the order of the entries.
-/
namespace Conform

theorem Number.same_symm {m n : Number} (equal : m.same n = true) : n.same m = true := by
  obtain ⟨p, left, right⟩ := same_iff.mp equal
  exact same_iff.mpr ⟨p, right, left⟩

theorem Clock.same_symm {t u : Clock} (equal : t.same u = true) : u.same t = true := by
  unfold Clock.same at *
  cases left : t.offset <;> cases right : u.offset <;> simp_all

theorem Moment.same_symm {m n : Moment} (equal : m.same n = true) : n.same m = true := by
  unfold Moment.same at *
  cases left : m.clock.offset <;> cases right : n.clock.offset <;> simp_all

theorem Scalar.same_symm {a b : Scalar} (equal : a.same b = true) : b.same a = true := by
  cases number : a.number? with
  | some m =>
    obtain ⟨n, other, left⟩ := (same_number number).mp equal
    exact (same_number other).mpr ⟨m, number, Number.same_symm left⟩
  | none => cases text : a.text? with
    | some s =>
      obtain ⟨none, other⟩ := (same_text number text).mp equal
      exact (same_text none other).mpr ⟨number, text⟩
    | none =>
      obtain ⟨number', text', other⟩ := (same_other number text).mp equal
      refine (same_other number' text').mpr ⟨number, text, ?_⟩
      rcases other with ⟨t, u, rfl, rfl, left⟩ | ⟨m, n, rfl, rfl, left⟩ |
        ⟨token, clock, moment, rfl⟩
      · exact Or.inl ⟨u, t, rfl, rfl, Clock.same_symm left⟩
      · exact Or.inr (Or.inl ⟨n, m, rfl, rfl, Moment.same_symm left⟩)
      · exact Or.inr (Or.inr ⟨token, clock, moment, rfl⟩)

namespace Key

mutual

theorem same_symm : ∀ k l : Key, k.same l = true → l.same k = true
  | .scalar _, .scalar _, equal => Scalar.same_symm equal
  | .tuple ks, .tuple ls, equal => sameAll_symm ks ls equal
  | .scalar _, .tuple _, equal => by cases equal
  | .tuple _, .scalar _, equal => by cases equal
termination_by structural k => k

theorem sameAll_symm : ∀ ks ls : List Key, sameAll ks ls = true → sameAll ls ks = true
  | [], [], _ => rfl
  | k :: ks, l :: ls, equal => by
    obtain ⟨head, tail⟩ := Bool.and_eq_true_iff.mp equal
    exact Bool.and_eq_true_iff.mpr ⟨same_symm k l head, sameAll_symm ks ls tail⟩
  | [], _ :: _, equal => by cases equal
  | _ :: _, [], equal => by cases equal
termination_by structural ks => ks

end

theorem differ_symm {k l : Key} (differ : k.same l = false) : l.same k = false := by
  cases equal : l.same k with
  | false => rfl
  | true => exact (same_symm l k equal).symm.trans differ

mutual

theorem same_trans : ∀ k l m : Key, k.same l = true → l.same m = true → k.same m = true
  | .scalar _, .scalar _, .scalar _, left, right => Scalar.same_trans left right
  | .tuple ks, .tuple ls, .tuple ms, left, right => sameAll_trans ks ls ms left right
  | .scalar _, .tuple _, _, left, _ => by cases left
  | .tuple _, .scalar _, _, left, _ => by cases left
  | .scalar _, .scalar _, .tuple _, _, right => by cases right
  | .tuple _, .tuple _, .scalar _, _, right => by cases right
termination_by structural k => k

theorem sameAll_trans : ∀ ks ls ms : List Key, sameAll ks ls = true → sameAll ls ms = true →
    sameAll ks ms = true
  | [], [], [], _, _ => rfl
  | k :: ks, l :: ls, m :: ms, left, right => by
    obtain ⟨head, tail⟩ := Bool.and_eq_true_iff.mp left
    obtain ⟨head', tail'⟩ := Bool.and_eq_true_iff.mp right
    exact Bool.and_eq_true_iff.mpr
      ⟨same_trans k l m head head', sameAll_trans ks ls ms tail tail'⟩
  | [], _ :: _, _, left, _ => by cases left
  | _ :: _, [], _, left, _ => by cases left
  | [], [], _ :: _, _, right => by cases right
  | _ :: _, _ :: _, [], _, right => by cases right
termination_by structural ks => ks

end

end Key

def KeysDistinct (es : List (Key × Value)) : Prop :=
  es.Pairwise fun e f => e.1.same f.1 = false

theorem valueUnder?_iff {es : List (Key × Value)} (distinct : KeysDistinct es) {k : Key}
    {x : Value} : valueUnder? es k = some x ↔ ∃ e ∈ es, e.1.same k = true ∧ e.2 = x := by
  induction es with
  | nil => simp [valueUnder?]
  | cons e es ih =>
    obtain ⟨apart, distinct⟩ := List.pairwise_cons.mp distinct
    rw [valueUnder?_cons, List.exists_mem_cons_iff]
    by_cases under : e.1.same k = true
    · have others : ¬ ∃ f ∈ es, f.1.same k = true ∧ f.2 = x := by
        rintro ⟨f, member, equal, _⟩
        have differs := apart f member
        rw [Key.same_trans _ _ _ under (Key.same_symm _ _ equal)] at differs
        cases differs
      simp [under, others]
    · rw [if_neg under, ih distinct]
      simp only [under, Bool.false_eq_true, false_and, false_or]

section

variable {κ α : Type} {same : κ → κ → Bool}

theorem entriesBy_append_singleton (pairs : List (κ × α)) (pair : κ × α) :
    entriesBy same (pairs ++ [pair]) = putEntry same (entriesBy same pairs) pair.1 pair.2 := by
  rw [entriesBy, List.foldl_append]
  rfl

theorem putEntry_append {es : List (κ × α)} {key : κ} (fresh : ∀ e ∈ es, same e.1 key = false)
    (others : List (κ × α)) (value : α) :
    putEntry same (es ++ others) key value = es ++ putEntry same others key value := by
  induction es with
  | nil => rfl
  | cons e es ih =>
    rw [List.forall_mem_cons] at fresh
    have other : ¬ same e.1 key = true := by simp [fresh.1]
    rw [List.cons_append, putEntry, if_neg other, ih fresh.2, List.cons_append]

theorem entriesBy_of_pairwise {pairs : List (κ × α)}
    (distinct : pairs.Pairwise fun p q => same p.1 q.1 = false) : entriesBy same pairs = pairs := by
  induction pairs using List.reverseRecOn with
  | nil => rfl
  | append_singleton pairs pair ih =>
    obtain ⟨before, _, apart⟩ := List.pairwise_append.mp distinct
    have fresh : ∀ p ∈ pairs, same p.1 pair.1 = false := fun p member =>
      apart p member pair (List.mem_singleton.mpr rfl)
    have written := putEntry_append fresh [] pair.2
    rw [List.append_nil] at written
    rw [entriesBy_append_singleton, ih before, written]
    rfl

end

end Conform
