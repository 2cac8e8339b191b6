import Conform.Proofs.Rounding

/-!
Rounding is to the nearest number. A number with a finer last place lies at or
below the least magnitude of the coarser one, so no number between the multiples
of the last place is missed.
-/
namespace Conform.Binary64

/-- Half a last place past the largest number: from here on rounding gives an infinity. -/
def overflowFrom : Rat := (2 ^ 53 - 1 / 2) * 2 ^ (971 : Int)

/-- The number that `q` is rounded to: no number is nearer, and where another one is as
    near the significand is even. -/
def IsRounded (q : Rat) : Binary64 → Prop
  | .nan => False
  | .infinite negative => negative = decide (q < 0) ∧ overflowFrom ≤ |q|
  | .finite negative m e canonical => negative = decide (q < 0) ∧ |q| < overflowFrom ∧
      ∃ p, (finite negative m e canonical).toRat? = some p ∧ ∀ (y : Binary64) (r : Rat),
        y.toRat? = some r → |q - p| ≤ |q - r| ∧ (|q - p| = |q - r| → r = p ∨ m % 2 = 0)

theorem floor_bracket (s : Rat) : (s.floor : Rat) ≤ s ∧ s < s.floor + 1 := by
  have low : (s.floor : Rat) ≤ s := Rat.le_floor_iff.mp le_rfl
  have high : s < ((s.floor + 1 : Int) : Rat) := Rat.floor_lt_iff.mp (by omega)
  push_cast at high
  exact ⟨low, high⟩

/-- Any integer is at least as far from `s` as the one of its two neighbours on that side. -/
theorem integer_outside (s : Rat) (low k : Int) :
    (s - low ≤ s - k ∧ (s - low = s - k → k = low)) ∨
      (low + 1 - s ≤ k - s ∧ (low + 1 - s = k - s → k = low + 1)) := by
  rcases le_or_gt k low with below | above
  · have cast : (k : Rat) ≤ low := by exact_mod_cast below
    refine Or.inl ⟨by linarith, fun same => ?_⟩
    have equal : (k : Rat) = low := by linarith
    exact_mod_cast equal
  · have cast : ((low + 1 : Int) : Rat) ≤ k := by exact_mod_cast above
    push_cast at cast
    refine Or.inr ⟨by linarith, fun same => ?_⟩
    have equal : (k : Rat) = ((low + 1 : Int) : Rat) := by push_cast; linarith
    exact_mod_cast equal

theorem roundHalfEven_error (s : Rat) :
    (s - s.floor < 1 / 2 ∧ roundHalfEven s = s.floor) ∨
      (1 / 2 < s - s.floor ∧ roundHalfEven s = s.floor + 1) ∨
      (s - s.floor = 1 / 2 ∧ |s - roundHalfEven s| = 1 / 2 ∧ roundHalfEven s % 2 = 0) := by
  unfold roundHalfEven
  dsimp only
  split
  · rename_i down
    exact Or.inl ⟨down, rfl⟩
  · split
    · rename_i up
      exact Or.inr (Or.inl ⟨up, rfl⟩)
    · have half : s - s.floor = 1 / 2 := by linarith
      refine Or.inr (Or.inr ⟨half, ?_, by omega⟩)
      rcases Int.emod_two_eq_zero_or_one s.floor with even | odd
      · rw [even, add_zero, half]
        norm_num
      · rw [odd, show s - ((s.floor + 1 : Int) : Rat) = -(1 / 2) by push_cast; linarith]
        norm_num

theorem roundHalfEven_closest (s : Rat) (k : Int) :
    |s - roundHalfEven s| ≤ |s - k| ∧
      (|s - roundHalfEven s| = |s - k| → k = roundHalfEven s ∨ roundHalfEven s % 2 = 0) := by
  obtain ⟨low, high⟩ := floor_bracket s
  have left := le_abs_self (s - k)
  have right := neg_le_abs (s - k)
  have outside := integer_outside s s.floor k
  rcases roundHalfEven_error s with ⟨down, rounded⟩ | ⟨up, rounded⟩ | ⟨half, error, even⟩
  · rw [rounded, abs_of_nonneg (sub_nonneg.mpr low)]
    rcases outside with ⟨far, tie⟩ | ⟨far, _⟩
    · exact ⟨by linarith, fun same => Or.inl (tie (by linarith))⟩
    · exact ⟨by linarith, fun same => by linarith⟩
  · rw [rounded]
    push_cast
    rw [abs_of_nonpos (by linarith)]
    rcases outside with ⟨far, _⟩ | ⟨far, tie⟩
    · exact ⟨by linarith, fun same => by linarith⟩
    · exact ⟨by linarith, fun same => Or.inl (tie (by linarith))⟩
  · refine ⟨?_, fun _ => Or.inr even⟩
    rw [error]
    rcases outside with ⟨far, _⟩ | ⟨far, _⟩ <;> linarith

theorem toRat?_multiple {y : Binary64} {r : Rat} (value : y.toRat? = some r) :
    ∃ k e : Int, r = k * 2 ^ e ∧ |(k : Rat)| < 2 ^ (53 : Int) ∧ -1074 ≤ e := by
  cases y with
  | nan | infinite => cases value
  | finite negative m e canonical =>
    have small : (m : Rat) < 2 ^ (53 : Int) := by exact_mod_cast canonical.1
    cases negative with
    | false =>
      cases value
      exact ⟨m, e, by push_cast; rfl, by simpa using small, canonical.2.1⟩
    | true =>
      cases value
      exact ⟨-m, e, by push_cast; rw [neg_mul], by simpa using small, canonical.2.1⟩

/-- The last place leaves at most 53 bits, and all of them unless it is the least one. -/
theorem lastPlace_scale {x : Rat} (positive : 0 < x) :
    -1074 ≤ lastPlace x ∧ x < 2 ^ (lastPlace x + 53) ∧
      (lastPlace x = -1074 ∨ 2 ^ (lastPlace x + 52) ≤ x) := by
  obtain ⟨e, place, low, high⟩ := lastPlace_bracket positive
  rw [place]
  rcases le_total e (-1074) with least | above
  · rw [max_eq_left least]
    refine ⟨le_rfl, ?_, Or.inl rfl⟩
    exact high.trans_le (zpow_two_le (by omega))
  · rw [max_eq_right above]
    exact ⟨above, high, Or.inr low⟩

def rounded (x : Rat) : Int := roundHalfEven (x / 2 ^ lastPlace x)

theorem rounded_closest (x : Rat) (k : Int) :
    |x - rounded x * 2 ^ lastPlace x| ≤ |x - k * 2 ^ lastPlace x| ∧
      (|x - rounded x * 2 ^ lastPlace x| = |x - k * 2 ^ lastPlace x| →
        k = rounded x ∨ rounded x % 2 = 0) := by
  have unit := zpow_two_pos (lastPlace x)
  have scaled : ∀ n : Int, |x - n * 2 ^ lastPlace x| =
      |x / 2 ^ lastPlace x - n| * 2 ^ lastPlace x := by
    intro n
    rw [← abs_of_pos unit, ← abs_mul, abs_of_pos unit, sub_mul, div_mul_cancel₀ _ unit.ne']
  obtain ⟨near, tie⟩ := roundHalfEven_closest (x / 2 ^ lastPlace x) k
  rw [scaled, scaled]
  exact ⟨mul_le_mul_of_nonneg_right near unit.le, fun same =>
    tie (mul_right_cancel₀ unit.ne' same)⟩

theorem finite_closest {x r : Rat} {y : Binary64} (positive : 0 < x) (value : y.toRat? = some r) :
    |x - rounded x * 2 ^ lastPlace x| ≤ |x - r| ∧
      (|x - rounded x * 2 ^ lastPlace x| = |x - r| →
        r = rounded x * 2 ^ lastPlace x ∨ rounded x % 2 = 0) := by
  obtain ⟨k, e, rfl, small, least⟩ := toRat?_multiple value
  obtain ⟨_, _, full⟩ := lastPlace_scale positive
  rcases le_or_gt (lastPlace x) e with coarser | finer
  · obtain ⟨d, exponent⟩ : ∃ d : Nat, e = d + lastPlace x := ⟨(e - lastPlace x).toNat, by omega⟩
    have multiple : (k : Rat) * 2 ^ e = ((k * 2 ^ d : Int) : Rat) * 2 ^ lastPlace x := by
      rw [exponent, zpow_two_add, zpow_natCast]
      push_cast
      rw [mul_assoc]
    obtain ⟨near, tie⟩ := rounded_closest x (k * 2 ^ d)
    rw [multiple]
    exact ⟨near, fun same => (tie same).imp_left fun equal => by rw [equal]⟩
  · -- a finer place leaves 53 bits only for numbers below the least multiple with 53 bits
    have above : (2 : Rat) ^ (lastPlace x + 52) ≤ x := full.resolve_left (by omega)
    have below : (k : Rat) * 2 ^ e < 2 ^ (lastPlace x + 52) := by
      calc (k : Rat) * 2 ^ e ≤ |(k : Rat)| * 2 ^ e :=
            mul_le_mul_of_nonneg_right (le_abs_self _) (zpow_two_pos e).le
        _ < 2 ^ (53 : Int) * 2 ^ e := mul_lt_mul_of_pos_right small (zpow_two_pos e)
        _ = 2 ^ (53 + e) := (zpow_two_add _ _).symm
        _ ≤ 2 ^ (lastPlace x + 52) := zpow_two_le (by omega)
    have least_multiple : ((2 ^ 52 : Int) : Rat) * 2 ^ lastPlace x = 2 ^ (lastPlace x + 52) := by
      rw [add_comm, zpow_two_add]
      norm_num
    have strict : |x - rounded x * 2 ^ lastPlace x| < |x - k * 2 ^ e| := by
      calc |x - rounded x * 2 ^ lastPlace x|
          ≤ |x - ((2 ^ 52 : Int) : Rat) * 2 ^ lastPlace x| := (rounded_closest x _).1
        _ = x - 2 ^ (lastPlace x + 52) := by
          rw [least_multiple, abs_of_nonneg (sub_nonneg.mpr above)]
        _ < x - k * 2 ^ e := by linarith
        _ ≤ |x - k * 2 ^ e| := le_abs_self _
    exact ⟨strict.le, fun same => absurd same strict.ne⟩

theorem rounded_bounds {x : Rat} (positive : 0 < x) :
    0 ≤ rounded x ∧ rounded x ≤ 2 ^ 53 ∧ (2 ^ 52 ≤ rounded x ∨ lastPlace x = -1074) := by
  obtain ⟨_, high, full⟩ := lastPlace_scale positive
  have unit := zpow_two_pos (lastPlace x)
  have cases := roundHalfEven_cases (x / 2 ^ lastPlace x)
  change rounded x = _ ∨ rounded x = _ at cases
  have low : 0 ≤ (x / 2 ^ lastPlace x).floor :=
    Rat.le_floor_iff.mpr (by exact_mod_cast (div_pos positive unit).le)
  have top : (x / 2 ^ lastPlace x).floor < 2 ^ 53 := by
    apply Rat.floor_lt_iff.mpr
    rw [div_lt_iff₀ unit]
    rw [add_comm, zpow_two_add] at high
    exact_mod_cast high
  refine ⟨by omega, by omega, ?_⟩
  rcases full with least | above
  · exact Or.inr least
  · have bottom : 2 ^ 52 ≤ (x / 2 ^ lastPlace x).floor := by
      apply Rat.le_floor_iff.mpr
      rw [le_div_iff₀ unit]
      rw [add_comm, zpow_two_add] at above
      exact_mod_cast above
    exact Or.inl (by omega)

theorem nearest_parts {x : Rat} (negative : Bool) (positive : 0 < x) :
    ∃ (m : Nat) (e : Int), nearest negative x = ofParts negative m e ∧
      (m : Rat) * 2 ^ e = rounded x * 2 ^ lastPlace x ∧ m < 2 ^ 53 ∧ lastPlace x ≤ e ∧
      -1074 ≤ e ∧ (2 ^ 52 ≤ m ∨ e = -1074) ∧ (rounded x % 2 = 0 → m % 2 = 0) := by
  obtain ⟨low, high, full⟩ := rounded_bounds positive
  obtain ⟨least, _, _⟩ := lastPlace_scale positive
  obtain ⟨m, same⟩ : ∃ m : Nat, rounded x = m := ⟨_, (Int.toNat_of_nonneg low).symm⟩
  have parts : nearest negative x =
      if m = Nat.pow 2 53 then ofParts negative (Nat.pow 2 52) (lastPlace x + 1)
      else ofParts negative m (lastPlace x) := by
    unfold nearest
    change (if (rounded x).toNat = _ then _ else ofParts negative (rounded x).toNat _) = _
    rw [same, Int.toNat_natCast]
  rw [parts, same]
  rw [same] at high full
  by_cases carry : m = Nat.pow 2 53
  · rw [if_pos carry, carry]
    refine ⟨Nat.pow 2 52, lastPlace x + 1, rfl, ?_, by decide, by omega, by omega,
      Or.inl (by decide), fun _ => by decide⟩
    rw [add_comm, zpow_two_add, ← mul_assoc]
    congr 1
    norm_num
  · rw [if_neg carry]
    refine ⟨m, lastPlace x, rfl, by push_cast; rfl, ?_, le_rfl, least, ?_, by omega⟩
    · have : m ≠ 2 ^ 53 := carry
      omega
    · exact full.imp_left fun enough => by omega

theorem zpow_1024 : (2 : Rat) ^ (1024 : Int) = 2 ^ 53 * 2 ^ (971 : Int) := by
  rw [show (1024 : Int) = 53 + 971 by omega, zpow_two_add]
  norm_num

theorem lastPlace_of_overflow {x : Rat} (positive : 0 < x) (large : overflowFrom ≤ x) :
    971 ≤ lastPlace x := by
  obtain ⟨_, high, _⟩ := lastPlace_scale positive
  have less : (2 : Rat) ^ (1023 : Int) < 2 ^ (lastPlace x + 53) := by
    calc (2 : Rat) ^ (1023 : Int) = 2 ^ 52 * 2 ^ (971 : Int) := by
          rw [show (1023 : Int) = 52 + 971 by omega, zpow_two_add]
          norm_num
      _ ≤ (2 ^ 53 - 1 / 2) * 2 ^ (971 : Int) :=
          mul_le_mul_of_nonneg_right (by norm_num) (zpow_two_pos 971).le
      _ ≤ x := large
      _ < 2 ^ (lastPlace x + 53) := high
  have := lt_of_zpow_two_lt less
  omega

/-- What fits after rounding is below the bound; at the bound itself the even multiple is
    the one that does not fit. -/
theorem lt_overflowFrom {x : Rat} {m : Nat} {e : Int} (positive : 0 < x)
    (value : (m : Rat) * 2 ^ e = rounded x * 2 ^ lastPlace x) (small : m < 2 ^ 53)
    (place : lastPlace x ≤ e) (fits : e ≤ 971) : x < overflowFrom := by
  apply not_le.mp
  intro large
  have least := lastPlace_of_overflow positive large
  obtain rfl : e = 971 := by omega
  have last : lastPlace x = 971 := by omega
  obtain ⟨_, high, _⟩ := lastPlace_scale positive
  rw [last] at value high
  rw [show (971 : Int) + 53 = 1024 by omega, zpow_1024] at high
  unfold overflowFrom at large
  have unit := zpow_two_pos 971
  have same : rounded x = m := by exact_mod_cast (mul_right_cancel₀ unit.ne' value).symm
  have next : ((2 ^ 53 : Int) : Rat) = 2 ^ 53 := by norm_num
  obtain ⟨near, tie⟩ := rounded_closest x (2 ^ 53)
  rw [last, same, next, Int.cast_natCast, abs_of_nonpos (sub_nonpos.mpr high.le)] at near tie
  have fewer : (m : Rat) ≤ 2 ^ 53 - 1 := by
    have cast : ((m + 1 : Nat) : Rat) ≤ 2 ^ 53 := by exact_mod_cast small
    push_cast at cast
    linarith
  generalize (2 : Rat) ^ (971 : Int) = u at *
  have scaled := mul_le_mul_of_nonneg_right fewer unit.le
  have distance := le_abs_self (x - m * u)
  -- the neighbours are as near as each other, so the lower one is the largest number, which is odd
  have equal : |x - m * u| = -(x - 2 ^ 53 * u) := by linarith
  have most : ((2 ^ 53 - 1 : Nat) : Rat) ≤ m := by
    push_cast
    apply le_of_mul_le_mul_right _ unit
    linarith
  have odd : 2 ^ 53 - 1 ≤ m := by exact_mod_cast most
  have := tie equal
  omega

/-- What is too large after rounding is past the bound, or the largest number is nearer. -/
theorem overflowFrom_le {x : Rat} {m : Nat} {e : Int} (positive : 0 < x)
    (value : (m : Rat) * 2 ^ e = rounded x * 2 ^ lastPlace x) (full : 2 ^ 52 ≤ m)
    (large : 971 < e) : overflowFrom ≤ x := by
  apply not_lt.mp
  intro small
  unfold overflowFrom at small
  have unit := zpow_two_pos 971
  have largest : toRat? (.finite false (2 ^ 53 - 1) 971 (by decide)) =
      some ((2 ^ 53 - 1) * 2 ^ (971 : Int)) := by
    simp only [toRat?]
    norm_num
  have near := (finite_closest positive largest).1
  rw [← value] at near
  have past : (2 : Rat) ^ 53 * 2 ^ (971 : Int) ≤ (m : Rat) * 2 ^ e := by
    calc (2 : Rat) ^ 53 * 2 ^ (971 : Int) = (2 : Rat) ^ 52 * 2 ^ (972 : Int) := by
          rw [show (972 : Int) = 1 + 971 by omega, zpow_two_add, ← mul_assoc]
          norm_num
      _ ≤ (m : Rat) * 2 ^ e := mul_le_mul (by exact_mod_cast full) (zpow_two_le (by omega))
          (zpow_two_pos _).le (Nat.cast_nonneg m)
  have below := neg_le_abs (x - m * 2 ^ e)
  generalize (2 : Rat) ^ (971 : Int) = u at *
  rcases le_total ((2 ^ 53 - 1) * u) x with above | under
  · rw [abs_of_nonneg (sub_nonneg.mpr above)] at near
    linarith
  · rw [abs_of_nonpos (sub_nonpos.mpr under)] at near
    linarith

theorem toRat?_neg {y : Binary64} {r : Rat} (value : y.toRat? = some r) :
    ∃ z : Binary64, z.toRat? = some (-r) := by
  cases y with
  | nan | infinite => cases value
  | finite negative m e canonical =>
    cases negative with
    | false =>
      cases value
      exact ⟨.finite true m e canonical, rfl⟩
    | true =>
      cases value
      exact ⟨.finite false m e canonical, by rw [neg_neg]; rfl⟩

theorem nearest_isRounded {q : Rat} (nonzero : q ≠ 0) :
    IsRounded q (nearest (q < 0) |q|) := by
  have positive := abs_pos.mpr nonzero
  obtain ⟨m, e, parts, value, small, place, least, full, even⟩ :=
    nearest_parts (decide (q < 0)) positive
  rw [parts]
  by_cases fits : e ≤ 971
  · rw [ofParts_canonical ⟨small, least, fits, full⟩]
    refine ⟨rfl, lt_overflowFrom positive value small place fits, ?_⟩
    have closest : ∀ (y : Binary64) (r : Rat), y.toRat? = some r →
        |(|q|) - m * 2 ^ e| ≤ |(|q|) - r| ∧
          (|(|q|) - m * 2 ^ e| = |(|q|) - r| → r = m * 2 ^ e ∨ m % 2 = 0) := by
      intro y r other
      obtain ⟨near, tie⟩ := finite_closest positive other
      rw [← value] at near tie
      exact ⟨near, fun same => (tie same).imp_right even⟩
    by_cases negative : q < 0
    · have turn : ∀ p : Rat, |q - p| = |(-q) - (-p)| := by
        intro p
        rw [← abs_neg, neg_sub, neg_sub_neg]
      rw [abs_of_neg negative] at closest
      refine ⟨-(m * 2 ^ e), by simp [negative, toRat?], fun y r other => ?_⟩
      obtain ⟨z, opposite⟩ := toRat?_neg other
      obtain ⟨near, tie⟩ := closest z (-r) opposite
      rw [turn (-(m * 2 ^ e)), turn r, neg_neg]
      exact ⟨near, fun same => (tie same).imp_left neg_eq_iff_eq_neg.mp⟩
    · rw [abs_of_nonneg (not_lt.mp negative)] at closest
      exact ⟨m * 2 ^ e, by simp [negative, toRat?], closest⟩
  · rw [ofParts_large (by omega)]
    exact ⟨rfl, overflowFrom_le positive value (full.resolve_right (by omega)) (by omega)⟩

theorem ofInt_isRounded {n : Int} (nonzero : n ≠ 0) : IsRounded n (ofInt n) := by
  have magnitude : (n.natAbs : Rat) = |(n : Rat)| := by rw [Nat.cast_natAbs, Int.cast_abs]
  have sign : decide (n < 0) = decide ((n : Rat) < 0) := by simp
  unfold ofInt
  rw [magnitude, sign]
  exact nearest_isRounded (by exact_mod_cast nonzero)

theorem ofDecimal_isRounded (negative : Bool) {c : Nat} (e : Int) (positive : 0 < c) :
    IsRounded (if negative then -((c : Rat) * 10 ^ e) else c * 10 ^ e)
      (ofDecimal negative c e) := by
  have above : (0 : Rat) < c * 10 ^ e :=
    mul_pos (by exact_mod_cast positive) (zpow_pos (by norm_num) e)
  rw [ofDecimal_eq_nearest negative e positive]
  cases negative with
  | false =>
    have read := nearest_isRounded above.ne'
    rwa [abs_of_pos above, decide_eq_false above.le.not_gt] at read
  | true =>
    have read := nearest_isRounded (neg_neg_of_pos above).ne
    rwa [abs_neg, abs_of_pos above, decide_eq_true (neg_neg_of_pos above)] at read

end Conform.Binary64
