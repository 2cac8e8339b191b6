import Conform.Proofs.Nearest
import Conform.Scalar

/-!
Integers around the greatest safe one. A safe integer has at most 53 bits, so it is a
number, and is rounded to itself. The first integer that is not safe is a number too, and
rounding does not go past it. So it makes no difference whether an integer or the number
that it is rounded to is compared with the limit.
-/
namespace Conform.Binary64

theorem isWithin_iff {limit : Nat} {x : Binary64} :
    x.isWithin limit = true ↔ ∃ q, x.toRat? = some q ∧ |q| ≤ limit := by
  unfold isWithin
  cases x.toRat? with
  | none => simp
  | some q => simp [abs_le]

/-- An integer of at most 53 bits is a number: its first bit is moved to the first place. -/
theorem exists_integer {n : Nat} (positive : 0 < n) (small : n < 2 ^ 53) :
    ∃ m e, Canonical m e ∧ (m : Rat) * 2 ^ e = n := by
  have low : 2 ^ n.log2 ≤ n := Nat.log2_self_le (by omega)
  have high : n < 2 ^ (n.log2 + 1) := Nat.lt_log2_self
  have bits : n.log2 ≤ 52 := by
    have less : 2 ^ n.log2 < 2 ^ 53 := Nat.lt_of_le_of_lt low small
    have := (Nat.pow_lt_pow_iff_right (by omega : 1 < 2)).mp less
    omega
  obtain ⟨k, places⟩ : ∃ k, k + n.log2 = 52 := ⟨52 - n.log2, by omega⟩
  refine ⟨n * 2 ^ k, -k, ⟨?_, by omega, by omega, Or.inl ?_⟩, ?_⟩
  · calc n * 2 ^ k < 2 ^ (n.log2 + 1) * 2 ^ k := Nat.mul_lt_mul_of_pos_right high (by positivity)
      _ = 2 ^ 53 := by rw [← pow_add]; congr 1; omega
  · calc 2 ^ 52 = 2 ^ n.log2 * 2 ^ k := by rw [← pow_add]; congr 1; omega
      _ ≤ n * 2 ^ k := Nat.mul_le_mul_right _ low
  · have power : (2 : Rat) ^ k * 2 ^ (-(k : Int)) = 1 := by
      rw [← zpow_natCast, ← zpow_two_add, add_neg_cancel, zpow_zero]
    push_cast
    rw [mul_assoc, power, mul_one]

theorem nearest_of_safe {n : Nat} (negative : Bool) (positive : 0 < n)
    (safe : n ≤ maxSafeInteger) :
    ∃ q, (nearest negative n).toRat? = some q ∧ |q| = n := by
  have small : n < 2 ^ 53 := Nat.lt_of_le_of_lt safe (by decide)
  obtain ⟨m, e, canonical, value⟩ := exists_integer positive small
  have significant : 0 < m := by
    apply Nat.pos_of_ne_zero
    intro none
    rw [none, Nat.cast_zero, zero_mul] at value
    have : n = 0 := by exact_mod_cast value.symm
    omega
  rw [← value, nearest_exact negative canonical significant]
  have above : (0 : Rat) ≤ m * 2 ^ e := value ▸ Nat.cast_nonneg n
  cases negative with
  | false => exact ⟨_, rfl, abs_of_nonneg above⟩
  | true => exact ⟨_, rfl, by rw [abs_neg, abs_of_nonneg above]⟩

/-- Rounding does not go below the first integer past the safe ones, which is a number. -/
theorem isWithin_of_rounded {q : Rat} {x : Binary64} (large : 2 ^ 53 ≤ |q|)
    (rounded : IsRounded q x) : x.isWithin maxSafeInteger = false := by
  have safe : (maxSafeInteger : Rat) = 2 ^ 53 - 1 := by norm_num [maxSafeInteger]
  have first : Canonical (2 ^ 52) 1 := by decide
  cases x with
  | nan => rfl
  | infinite negative => rfl
  | finite negative m e canonical =>
    obtain ⟨_, _, p, value, closest⟩ := rounded
    apply Bool.eq_false_iff.mpr
    intro within
    obtain ⟨p', same, below⟩ := isWithin_iff.mp within
    cases value.symm.trans same
    rw [safe, abs_le] at below
    -- the first unsafe integer, on the side of `q`, would be nearer
    rcases le_total 0 q with above | above
    · rw [abs_of_nonneg above] at large
      have near := (closest (.finite false (2 ^ 52) 1 first) (2 ^ 53) (by norm_num [toRat?])).1
      rw [abs_of_nonneg (by linarith), abs_of_nonneg (by linarith)] at near
      linarith
    · rw [abs_of_nonpos above] at large
      have near := (closest (.finite true (2 ^ 52) 1 first) (-2 ^ 53) (by norm_num [toRat?])).1
      rw [abs_of_nonpos (by linarith), abs_of_nonpos (by linarith)] at near
      linarith

theorem isWithin_integer (negative : Bool) (n : Nat) :
    (ofDecimal negative n 0).isWithin maxSafeInteger = true ↔ n ≤ maxSafeInteger := by
  rcases Nat.eq_zero_or_pos n with rfl | positive
  · have zero : ∃ q, (zero negative).toRat? = some q ∧ |q| ≤ (maxSafeInteger : Rat) := by
      cases negative <;> exact ⟨_, rfl, by simp⟩
    exact iff_of_true (isWithin_iff.mpr zero) (Nat.zero_le _)
  · by_cases safe : n ≤ maxSafeInteger
    · obtain ⟨q, value, size⟩ := nearest_of_safe negative positive safe
      rw [ofDecimal_eq_nearest negative 0 positive, zpow_zero, mul_one]
      exact iff_of_true (isWithin_iff.mpr ⟨q, value, by rw [size]; exact_mod_cast safe⟩) safe
    · have rounded := ofDecimal_isRounded negative 0 positive
      rw [zpow_zero, mul_one] at rounded
      have size : |if negative then -(n : Rat) else n| = n := by
        cases negative <;> simp
      have large : (2 : Rat) ^ 53 ≤ n := by
        have limit : maxSafeInteger = 2 ^ 53 - 1 := rfl
        have : 2 ^ 53 ≤ n := by omega
        exact_mod_cast this
      rw [← size] at large
      simp [isWithin_of_rounded large rounded, safe]

end Conform.Binary64
