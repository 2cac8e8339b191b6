import Conform.Path
import Conform.Proofs.Digits

/-!
What is stored in a container under a name. A list or tuple stores each item
under the decimal text of its index and nothing under any other name, and a
name that is not stored stands for the undefined value. An index with too many
digits is no name of an item, and is the one name that cannot be looked up.
-/
namespace Conform

open Digits

theorem indexName_toList (i : Nat) : (indexName i).toList = Nat.toDigits 10 i := by
  simp [indexName]

theorem indexName_injective {i j : Nat} (same : indexName i = indexName j) : i = j := by
  have digits : Nat.toDigits 10 i = Nat.toDigits 10 j := by
    rw [← indexName_toList, ← indexName_toList, same]
  calc
    i = Nat.ofDigitChars 10 (Nat.toDigits 10 i) 0 := Nat.ofDigitChars_ten_toDigits.symm
    _ = Nat.ofDigitChars 10 (Nat.toDigits 10 j) 0 := by rw [digits]
    _ = j := Nat.ofDigitChars_ten_toDigits

theorem indexDigits?_indexName (i : Nat) :
    indexDigits? (indexName i) = some (Nat.toDigits 10 i) := by
  unfold indexDigits?
  rw [indexName_toList]
  have digits : ∀ c ∈ Nat.toDigits 10 i, c.isDigit := fun _ => isDigit_of_mem
  rcases Nat.eq_zero_or_pos i with zero | positive
  · subst zero
    rfl
  · have head := head_ne_zero positive
    obtain ⟨c, cs, form⟩ := List.exists_cons_of_ne_nil (Nat.toDigits_ne_nil (n := i))
    rw [form] at head digits ⊢
    have nonzero : c ≠ '0' := by
      rintro rfl
      exact head rfl
    have all : (c :: cs).all Char.isDigit ∧ c ≠ '0' := ⟨List.all_eq_true.mpr digits, nonzero⟩
    split
    · rename_i same
      cases same
      exact absurd rfl nonzero
    · rename_i same
      cases same
      rw [if_pos all]
    · rename_i same
      cases same

theorem indexName_of_indexDigits? {name : String} {ds : List Char}
    (index : indexDigits? name = some ds) : name = indexName (Nat.ofDigitChars 10 ds 0) := by
  apply String.toList_inj.mp
  rw [indexName_toList]
  unfold indexDigits? at index
  split at index
  · rename_i same
    cases index
    rw [same]
    rfl
  · rename_i c rest _ same
    split at index
    · rename_i digits
      cases index
      rw [same, toDigits_value (List.all_eq_true.mp digits.1) digits.2]
    · cases index
  · cases index

theorem valueUnder?_cons (e : Key × Value) (es : List (Key × Value)) (key : Key) :
    valueUnder? (e :: es) key = if e.1.same key then some e.2 else valueUnder? es key := by
  unfold valueUnder?
  cases test : e.1.same key <;> simp [test]

theorem valueUnder?_mem {es : List (Key × Value)} {key : Key} {x : Value}
    (found : valueUnder? es key = some x) : ∃ e ∈ es, e.2 = x := by
  obtain ⟨e, first, same⟩ := Option.map_eq_some_iff.mp found
  exact ⟨e, List.mem_of_find?_eq_some first, same⟩

theorem indexDigits?_nines {n : Nat} (positive : 0 < n) :
    indexDigits? (String.ofList (List.replicate n '9')) = some (List.replicate n '9') := by
  obtain ⟨n, rfl⟩ : ∃ k, n = k + 1 := ⟨n - 1, by omega⟩
  unfold indexDigits?
  rw [String.toList_ofList, List.replicate_succ]
  simp

theorem length_indexName (i : Nat) : (indexName i).length = (Nat.toDigits 10 i).length := by
  rw [← String.length_toList, indexName_toList]

/-- The decimal text of a number with more digits than are read. -/
def IsLongIndex (name : String) : Prop := digitLimit < name.length ∧ ∃ i, indexName i = name

theorem digits_of_not_long {i : Nat} (readable : ¬ IsLongIndex (indexName i)) :
    (Nat.toDigits 10 i).length ≤ digitLimit := by
  rw [← length_indexName]
  exact Nat.le_of_not_lt fun long => readable ⟨long, i, rfl⟩

theorem not_long_of_lt {i n : Nat} (inside : i < n) (short : n ≤ Nat.pow 10 digitLimit) :
    ¬ IsLongIndex (indexName i) := by
  rintro ⟨long, _⟩
  rw [length_indexName] at long
  have digits := length_toDigits_le (by decide) (Nat.lt_of_lt_of_le inside short)
  exact Nat.not_lt_of_le digits long

namespace Container

variable {items : List Value} {name : String}

theorem lookup_indexName {i : Nat} (readable : ¬ IsLongIndex (indexName i)) :
    (seq items).lookup (indexName i) = .ok (items.getD i .undefined) := by
  simp only [lookup, indexDigits?_indexName]
  rw [if_neg (Nat.not_lt_of_le (digits_of_not_long readable)), Nat.ofDigitChars_ten_toDigits]

theorem lookup_item {i : Nat} {x : Value} (found : items[i]? = some x)
    (readable : ¬ IsLongIndex (indexName i)) : (seq items).lookup (indexName i) = .ok x := by
  rw [lookup_indexName readable, List.getD_eq_getElem?_getD, found]
  rfl

theorem lookup_undefined (other : ∀ i < items.length, indexName i ≠ name)
    (readable : ¬ IsLongIndex name) : (seq items).lookup name = .ok .undefined := by
  cases index : indexDigits? name with
  | none => simp only [lookup, index]
  | some digits =>
    obtain ⟨i, rfl⟩ : ∃ i, indexName i = name := ⟨_, (indexName_of_indexDigits? index).symm⟩
    have past : items.length ≤ i := Nat.le_of_not_lt fun inside => other i inside rfl
    rw [lookup_indexName readable, List.getD_eq_getElem?_getD, List.getElem?_eq_none past]
    rfl

theorem lookup_long (long : IsLongIndex name) :
    (seq items).lookup name = .error (.unreadableInteger name.length) := by
  obtain ⟨digits, i, rfl⟩ := long
  rw [length_indexName] at digits ⊢
  simp only [lookup, indexDigits?_indexName]
  rw [if_pos digits]

/-- The value that a container stores under a name, or `undefined` where it stores none. -/
def Holds (c : Container) (name : String) (x : Value) : Prop :=
  match c with
  | .map entries => (valueUnder? entries (.scalar (.text name))).getD .undefined = x
  | .seq items =>
    (∃ i, indexName i = name ∧ items[i]? = some x) ∨
      (∀ i < items.length, indexName i ≠ name) ∧ x = .undefined

theorem holds_unique {c : Container} {name : String} {x y : Value} (first : c.Holds name x)
    (second : c.Holds name y) : x = y := by
  cases c with
  | map entries => exact first.symm.trans second
  | seq items =>
    rcases first with ⟨i, named, found⟩ | ⟨none, absent⟩
    · rcases second with ⟨j, other, there⟩ | ⟨none, _⟩
      · cases indexName_injective (named.trans other.symm)
        exact Option.some.inj (found.symm.trans there)
      · exact absurd named (none i (List.getElem?_eq_some_iff.mp found).1)
    · rcases second with ⟨j, other, there⟩ | ⟨_, absent'⟩
      · exact absurd other (none j (List.getElem?_eq_some_iff.mp there).1)
      · exact absent.trans absent'.symm

theorem holds_of_lookup {c : Container} {name : String} {x : Value}
    (looked : c.lookup name = .ok x) : c.Holds name x := by
  cases c with
  | map entries => exact Except.ok.inj looked
  | seq items =>
    by_cases long : IsLongIndex name
    · rw [lookup_long long] at looked
      cases looked
    · by_cases inside : ∃ i < items.length, indexName i = name
      · obtain ⟨i, within, rfl⟩ := inside
        have found := List.getElem?_eq_getElem within
        rw [lookup_item found long] at looked
        cases looked
        exact Or.inl ⟨i, rfl, found⟩
      · have other : ∀ i < items.length, indexName i ≠ name := fun i within named =>
          inside ⟨i, within, named⟩
        rw [lookup_undefined other long] at looked
        cases looked
        exact Or.inr ⟨other, rfl⟩

end Container
end Conform
