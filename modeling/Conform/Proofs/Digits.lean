import Mathlib.Data.List.Induction
import Mathlib.Data.Nat.Digits.Defs

/-!
Decimal digits. The digits of a number read back as the number, and a run of
digits is that of the number it reads as when it does not start with a zero.
-/
namespace Conform.Digits

theorem digit_range {c : Char} (digit : c.isDigit) : 48 ≤ c.toNat ∧ c.toNat ≤ 57 :=
  Char.isDigit_iff_toNat.mp digit

theorem digitValue_lt_ten {c : Char} (digit : c.isDigit) : c.toNat - 48 < 10 := by
  have := digit_range digit
  omega

theorem digitValue_pos {c : Char} (digit : c.isDigit) (nonzero : c ≠ '0') : 0 < c.toNat - 48 := by
  have := digit_range digit
  have differs : c.toNat ≠ 48 := fun same => nonzero (Char.toNat_inj.mp same)
  omega

theorem digitChar_digitValue {c : Char} (digit : c.isDigit) : (c.toNat - 48).digitChar = c := by
  have := digit_range digit
  apply Char.toNat_inj.mp
  rw [Nat.toNat_digitChar_of_lt_ten (digitValue_lt_ten digit)]
  omega

theorem isDigit_of_mem {n : Nat} {c : Char} (member : c ∈ Nat.toDigits 10 n) : c.isDigit :=
  Nat.isDigit_of_mem_toDigits (by decide) (by decide) member

theorem head_ne_zero {n : Nat} (positive : 0 < n) : (Nat.toDigits 10 n).head? ≠ some '0' := by
  induction n using Nat.strongRecOn with
  | ind n ih =>
    by_cases single : n < 10
    · rw [Nat.toDigits_of_lt_base single]
      intro same
      simp only [List.head?_cons, Option.some.injEq] at same
      have value := congrArg Char.toNat same
      rw [Nat.toNat_digitChar_of_lt_ten single] at value
      change 48 + n = 48 at value
      omega
    · have shorter := ih (n / 10) (by omega) (by omega)
      obtain ⟨c, cs, form⟩ := List.exists_cons_of_ne_nil (Nat.toDigits_ne_nil (n := n / 10))
      rw [Nat.toDigits_of_base_le (by decide) (by omega), form]
      simpa [form] using shorter

theorem toDigits_snoc {n : Nat} (positive : 0 < n) {c : Char} (digit : c.isDigit) :
    Nat.toDigits 10 (10 * n + (c.toNat - 48)) = Nat.toDigits 10 n ++ [c] := by
  rw [← Nat.toDigits_append_toDigits (by decide) positive (digitValue_lt_ten digit),
    Nat.toDigits_of_lt_base (digitValue_lt_ten digit), digitChar_digitValue digit]

theorem value_pos {ds : List Char} {c : Char} (digit : c.isDigit) (nonzero : c ≠ '0') :
    0 < Nat.ofDigitChars 10 (c :: ds) 0 := by
  have first := digitValue_pos digit nonzero
  rw [Nat.ofDigitChars_cons, Nat.ofDigitChars_eq_ofDigitChars_zero, Nat.mul_zero, Nat.zero_add]
  exact Nat.lt_of_lt_of_le (Nat.mul_pos (Nat.pow_pos (by decide)) first) (Nat.le_add_right _ _)

theorem toDigits_value {ds : List Char} {c : Char} (digits : ∀ d ∈ c :: ds, d.isDigit)
    (nonzero : c ≠ '0') : Nat.toDigits 10 (Nat.ofDigitChars 10 (c :: ds) 0) = c :: ds := by
  have first := digits c (by simp)
  induction ds using List.reverseRecOn with
  | nil =>
    change Nat.toDigits 10 (10 * 0 + (c.toNat - 48)) = [c]
    rw [Nat.mul_zero, Nat.zero_add, Nat.toDigits_of_lt_base (digitValue_lt_ten first),
      digitChar_digitValue first]
  | append_singleton ds d ih =>
    have before : ∀ e ∈ c :: ds, e.isDigit := fun e member =>
      digits e (List.mem_append_left [d] member)
    have last := digits d (by simp)
    rw [← List.cons_append, Nat.ofDigitChars_append]
    change Nat.toDigits 10 (10 * Nat.ofDigitChars 10 (c :: ds) 0 + (d.toNat - 48)) = _
    rw [toDigits_snoc (value_pos first nonzero) last, ih before]

theorem length_toDigits_le {n limit : Nat} (positive : 0 < limit) (small : n < Nat.pow 10 limit) :
    (Nat.toDigits 10 n).length ≤ limit :=
  Nat.toDigits_length 10 n limit positive small

theorem le_pow {n limit : Nat} (positive : 0 < limit) (single : n ≤ 10) : n ≤ Nat.pow 10 limit :=
  calc n ≤ Nat.pow 10 1 := single
    _ ≤ Nat.pow 10 limit := Nat.pow_le_pow_right (by decide) positive

end Conform.Digits
