import Conform.Binary64.Basic
import Mathlib.Algebra.Order.Field.Rat
import Mathlib.Algebra.Order.Field.Power
import Mathlib.Tactic.Linarith
import Mathlib.Tactic.NormNum

/-!
Rounding a magnitude. The last place is the one that leaves 53 binary digits, or
the least place there is. A magnitude that is a number is rounded to itself, one
past the largest number is infinite, and one below half the least number is zero,
so reading a decimal depends only on its exact value.
-/
namespace Conform.Binary64

theorem zpow_two_pos (e : Int) : (0 : Rat) < 2 ^ e := zpow_pos (by norm_num) e

theorem zpow_two_le {d e : Int} (le : d ≤ e) : (2 : Rat) ^ d ≤ 2 ^ e :=
  zpow_le_zpow_right₀ (by norm_num) le

theorem overflow_bound : (2 : Rat) ^ (1024 : Int) ≤ 10 ^ (310 : Int) := by
  have naturals : 2 ^ 1024 ≤ 10 ^ 310 := by decide +kernel
  exact_mod_cast naturals

theorem underflow_bound : (10 : Rat) ^ (-331 : Int) < 2 ^ (-1075 : Int) := by
  have naturals : 2 ^ 1075 < 10 ^ 331 := by decide +kernel
  rw [zpow_neg, zpow_neg]
  exact inv_strictAnti₀ (zpow_two_pos _) (by exact_mod_cast naturals)

theorem lt_of_zpow_two_lt {d e : Int} (less : (2 : Rat) ^ d < 2 ^ e) : d < e :=
  (zpow_lt_zpow_iff_right₀ (by norm_num)).mp less

theorem zpow_two_add (d e : Int) : (2 : Rat) ^ (d + e) = 2 ^ d * 2 ^ e :=
  zpow_add₀ (by norm_num) d e

/-- A positive fraction lies within a factor of two of the quotient of the leading bits. -/
theorem leading_bits {x : Rat} (positive : 0 < x) :
    (2 : Rat) ^ ((x.num.natAbs.log2 : Int) - x.den.log2 - 1) ≤ x ∧
      x < (2 : Rat) ^ ((x.num.natAbs.log2 : Int) - x.den.log2 + 1) := by
  have above : 0 < x.num := Rat.num_pos.mpr positive
  have nonzero : x.num.natAbs ≠ 0 := by omega
  have value : x = (x.num.natAbs : Rat) / x.den := by
    conv_lhs => rw [← Rat.num_div_den x]
    rw [← Int.cast_natCast x.num.natAbs, Int.natAbs_of_nonneg above.le]
  have num_low : ((2 : Rat) ^ (x.num.natAbs.log2 : Int)) ≤ x.num.natAbs := by
    exact_mod_cast Nat.log2_self_le nonzero
  have num_high : (x.num.natAbs : Rat) < 2 ^ ((x.num.natAbs.log2 : Int) + 1) := by
    exact_mod_cast Nat.lt_log2_self (n := x.num.natAbs)
  have den_low : ((2 : Rat) ^ (x.den.log2 : Int)) ≤ x.den := by
    exact_mod_cast Nat.log2_self_le x.den_nz
  have den_high : (x.den : Rat) < 2 ^ ((x.den.log2 : Int) + 1) := by
    exact_mod_cast Nat.lt_log2_self (n := x.den)
  have den_pos : (0 : Rat) < x.den := by exact_mod_cast x.den_pos
  generalize (x.num.natAbs.log2 : Int) = p at *
  generalize (x.den.log2 : Int) = q at *
  constructor
  · rw [value, le_div_iff₀ den_pos]
    calc (2 : Rat) ^ (p - q - 1) * x.den
        ≤ 2 ^ (p - q - 1) * 2 ^ (q + 1) :=
          mul_le_mul_of_nonneg_left den_high.le (zpow_two_pos _).le
      _ = 2 ^ p := by rw [← zpow_two_add]; congr 1; omega
      _ ≤ x.num.natAbs := num_low
  · rw [value, div_lt_iff₀ den_pos]
    calc (x.num.natAbs : Rat) < 2 ^ (p + 1) := num_high
      _ = 2 ^ (p - q + 1) * 2 ^ q := by rw [← zpow_two_add]; congr 1; omega
      _ ≤ 2 ^ (p - q + 1) * x.den := mul_le_mul_of_nonneg_left den_low (zpow_two_pos _).le

theorem lastPlace_bracket {x : Rat} (positive : 0 < x) :
    ∃ e : Int, lastPlace x = max (-1074) e ∧ (2 : Rat) ^ (e + 52) ≤ x ∧ x < 2 ^ (e + 53) := by
  obtain ⟨low, high⟩ := leading_bits positive
  unfold lastPlace
  generalize (x.num.natAbs.log2 : Int) - x.den.log2 = k at *
  by_cases below : x < (2 : Rat) ^ k
  · refine ⟨k - 53, by simp only [if_pos below], ?_, ?_⟩
    · rwa [show k - 53 + 52 = k - 1 by omega]
    · rwa [show k - 53 + 53 = k by omega]
  · refine ⟨k - 52, by simp only [if_neg below], ?_, ?_⟩
    · rw [show k - 52 + 52 = k by omega]
      exact not_lt.mp below
    · rwa [show k - 52 + 53 = k + 1 by omega]

theorem roundHalfEven_intCast (n : Int) : roundHalfEven n = n := by
  unfold roundHalfEven
  simp [Rat.floor_intCast]

theorem roundHalfEven_cases (x : Rat) :
    roundHalfEven x = x.floor ∨ roundHalfEven x = x.floor + 1 := by
  unfold roundHalfEven
  dsimp only
  split
  · exact Or.inl rfl
  · split
    · exact Or.inr rfl
    · omega

theorem roundHalfEven_small {x : Rat} (nonneg : 0 ≤ x) (small : x < 1 / 2) :
    roundHalfEven x = 0 := by
  have low : x.floor = 0 := by
    have above : 0 ≤ x.floor := Rat.le_floor_iff.mpr (by exact_mod_cast nonneg)
    have below : x.floor < 1 := Rat.floor_lt_iff.mpr (by push_cast; linarith)
    omega
  unfold roundHalfEven
  simp [low, show x < 2⁻¹ by linarith]

theorem ofParts_canonical {negative : Bool} {m : Nat} {e : Int} (canonical : Canonical m e) :
    ofParts negative m e = .finite negative m e canonical := dif_pos canonical

theorem ofParts_large {negative : Bool} {m : Nat} {e : Int} (large : 971 < e) :
    ofParts negative m e = .infinite negative :=
  dif_neg fun canonical => absurd canonical.2.2.1 (by omega)

theorem lastPlace_of_canonical {m : Nat} {e : Int} (canonical : Canonical m e)
    (positive : 0 < m) : lastPlace ((m : Rat) * 2 ^ e) = e := by
  obtain ⟨small, least, _, full⟩ := canonical
  have above : (0 : Rat) < m := by exact_mod_cast positive
  obtain ⟨d, place, low, high⟩ := lastPlace_bracket (mul_pos above (zpow_two_pos e))
  have lower : d ≤ e := by
    have less : (2 : Rat) ^ (d + 52) < 2 ^ (e + 53) := by
      calc (2 : Rat) ^ (d + 52) ≤ m * 2 ^ e := low
        _ < 2 ^ (53 : Int) * 2 ^ e :=
          mul_lt_mul_of_pos_right (by exact_mod_cast small) (zpow_two_pos e)
        _ = 2 ^ (e + 53) := by rw [← zpow_two_add, add_comm]
    have := lt_of_zpow_two_lt less
    omega
  rw [place]
  rcases full with large | same
  · have less : (2 : Rat) ^ (e + 52) < 2 ^ (d + 53) := by
      calc (2 : Rat) ^ (e + 52) = 2 ^ (52 : Int) * 2 ^ e := by rw [← zpow_two_add, add_comm]
        _ ≤ m * 2 ^ e :=
          mul_le_mul_of_nonneg_right (by exact_mod_cast large) (zpow_two_pos e).le
        _ < 2 ^ (d + 53) := high
    have := lt_of_zpow_two_lt less
    omega
  · omega

theorem nearest_exact {m : Nat} {e : Int} (negative : Bool) (canonical : Canonical m e)
    (positive : 0 < m) :
    nearest negative ((m : Rat) * 2 ^ e) = .finite negative m e canonical := by
  have scaled : (m : Rat) * 2 ^ e / 2 ^ e = ((m : Int) : Rat) := by
    rw [mul_div_assoc, div_self (zpow_two_pos e).ne', mul_one]
    norm_cast
  have fits : m ≠ Nat.pow 2 53 := Nat.ne_of_lt canonical.1
  unfold nearest
  simp only [lastPlace_of_canonical canonical positive, scaled, roundHalfEven_intCast,
    Int.toNat_natCast, if_neg fits, ofParts_canonical canonical]

theorem nearest_large {x : Rat} (negative : Bool) (large : 2 ^ (1024 : Int) ≤ x) :
    nearest negative x = .infinite negative := by
  have positive : 0 < x := lt_of_lt_of_le (zpow_two_pos _) large
  obtain ⟨e, place, _, high⟩ := lastPlace_bracket positive
  have less := lt_of_zpow_two_lt (lt_of_le_of_lt large high)
  unfold nearest
  simp only [place]
  split
  · exact ofParts_large (by omega)
  · exact ofParts_large (by omega)

theorem nearest_small {x : Rat} (negative : Bool) (positive : 0 < x)
    (small : x < 2 ^ (-1075 : Int)) : nearest negative x = zero negative := by
  obtain ⟨e, place, low, _⟩ := lastPlace_bracket positive
  have less := lt_of_zpow_two_lt (lt_of_le_of_lt low small)
  have least : lastPlace x = -1074 := by omega
  have half : x / 2 ^ (-1074 : Int) < 1 / 2 := by
    rw [div_lt_iff₀ (zpow_two_pos _)]
    calc x < 2 ^ (-1075 : Int) := small
      _ = 1 / 2 * 2 ^ (-1074 : Int) := by
        rw [show (-1075 : Int) = -1 + -1074 by omega, zpow_two_add]
        norm_num
  have rounded := roundHalfEven_small (div_nonneg positive.le (zpow_two_pos _).le) half
  unfold nearest
  simp only [least, rounded]
  rfl

theorem nearest_sign {x : Rat} {m : Nat} {e : Int} {canonical : Canonical m e}
    (rounded : nearest false x = .finite false m e canonical) (negative : Bool) :
    nearest negative x = .finite negative m e canonical := by
  unfold nearest ofParts at rounded ⊢
  simp only at rounded ⊢
  split at rounded <;> rename_i full
  · rw [if_pos full]
    split at rounded
    · cases rounded
      rw [dif_pos]
    · cases rounded
  · rw [if_neg full]
    split at rounded
    · cases rounded
      rw [dif_pos]
    · cases rounded

/-- The shortcuts for very large and very small exponents agree with rounding. -/
theorem ofDecimal_eq_nearest {c : Nat} (negative : Bool) (e : Int) (positive : 0 < c) :
    ofDecimal negative c e = nearest negative ((c : Rat) * 10 ^ e) := by
  have ten : ∀ k : Int, (0 : Rat) < 10 ^ k := fun k => zpow_pos (by norm_num) k
  unfold ofDecimal
  rw [if_neg (by omega)]
  split
  · rename_i high
    refine (nearest_large negative ?_).symm
    calc (2 : Rat) ^ (1024 : Int) ≤ 10 ^ (310 : Int) := overflow_bound
      _ ≤ 10 ^ e := zpow_le_zpow_right₀ (by norm_num) high
      _ ≤ c * 10 ^ e := le_mul_of_one_le_left (ten e).le (by exact_mod_cast positive)
  · split
    · rename_i low
      refine (nearest_small negative (mul_pos (by exact_mod_cast positive) (ten e)) ?_).symm
      have digits : (c : Rat) ≤ 10 ^ ((c.log2 : Int) + 1) := by
        have below : c < 2 ^ (c.log2 + 1) := Nat.lt_log2_self
        have wider : 2 ^ (c.log2 + 1) ≤ 10 ^ (c.log2 + 1) := Nat.pow_le_pow_left (by omega) _
        exact_mod_cast (below.le.trans wider)
      calc (c : Rat) * 10 ^ e ≤ 10 ^ ((c.log2 : Int) + 1) * 10 ^ e :=
            mul_le_mul_of_nonneg_right digits (ten e).le
        _ = 10 ^ ((c.log2 : Int) + 1 + e) := (zpow_add₀ (by norm_num) _ _).symm
        _ ≤ 10 ^ (-331 : Int) := zpow_le_zpow_right₀ (by norm_num) (by omega)
        _ < 2 ^ (-1075 : Int) := underflow_bound
    · rfl

theorem ofDecimal_eq_of_value_eq {c d : Nat} {e f : Int} (negative : Bool) (positive : 0 < c)
    (same : (c : Rat) * 10 ^ e = d * 10 ^ f) :
    ofDecimal negative c e = ofDecimal negative d f := by
  have ten : ∀ k : Int, (0 : Rat) < 10 ^ k := fun k => zpow_pos (by norm_num) k
  have above : 0 < d := by
    have value : (0 : Rat) < d * 10 ^ f := by
      rw [← same]
      exact mul_pos (by exact_mod_cast positive) (ten e)
    exact_mod_cast (pos_iff_pos_of_mul_pos value).mpr (ten f)
  rw [ofDecimal_eq_nearest negative e positive, ofDecimal_eq_nearest negative f above, same]

end Conform.Binary64
