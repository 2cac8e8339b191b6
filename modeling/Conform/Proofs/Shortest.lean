import Conform.Binary64.Text
import Conform.Proofs.Rounding
import Mathlib.Tactic.FieldSimp

/-!
The decimal that a number is shown as reads back as the number, whichever of the
candidates is chosen: a neighbour is taken only when it reads back, and the exact
decimal always does.
-/
namespace Conform.Binary64

theorem Decimal.reads_iff {d : Decimal} {m : Nat} {e : Int} (canonical : Canonical m e) :
    d.Reads m e ↔ ofDecimal false d.coefficient d.exponent = .finite false m e canonical := by
  unfold Decimal.Reads
  constructor
  · intro reads
    split at reads
    · rename_i value
      simp only [Bool.and_eq_true, beq_iff_eq] at reads
      obtain ⟨rfl, rfl⟩ := reads
      exact value
    · cases reads
  · intro value
    rw [value]
    simp

theorem neighbour?_reads {m : Nat} {e : Int} {places : Nat} {d : Decimal}
    (found : neighbour? m e places = some d) : d.Reads m e := by
  unfold neighbour? at found
  dsimp only at found
  have ten : (0 : Rat) ≤ 10 ^ (firstPlace ((m : Rat) * 2 ^ e) - places + 1) :=
    (zpow_pos (by norm_num) _).le
  have nonneg : 0 ≤ (m : Rat) * 2 ^ e / 10 ^ (firstPlace ((m : Rat) * 2 ^ e) - places + 1) :=
    div_nonneg (mul_nonneg (Nat.cast_nonneg m) (zpow_two_pos e).le) ten
  generalize (m : Rat) * 2 ^ e / 10 ^ (firstPlace ((m : Rat) * 2 ^ e) - places + 1) = scaled at *
  have low : 0 ≤ scaled.floor := Rat.le_floor_iff.mpr (by exact_mod_cast nonneg)
  split at found
  · rename_i down up
    cases found
    rcases roundHalfEven_cases scaled with rounded | rounded
    · rwa [rounded]
    · rwa [rounded, Int.toNat_add low (by decide)]
  · rename_i down _
    cases found
    exact down
  · rename_i _ up
    cases found
    exact up
  · cases found

theorem exactDecimal_reads {m : Nat} {e : Int} (canonical : Canonical m e) (positive : 0 < m) :
    (exactDecimal m e).Reads m e := by
  rw [Decimal.reads_iff canonical]
  unfold exactDecimal
  by_cases whole : 0 ≤ e
  · obtain ⟨k, rfl⟩ := Int.eq_ofNat_of_zero_le whole
    have above : 0 < m * 2 ^ k := Nat.mul_pos positive (Nat.pow_pos (by decide))
    simp only [if_pos whole, Int.toNat_natCast, Nat.pow_eq]
    rw [ofDecimal_eq_nearest false 0 above, ← nearest_exact false canonical positive]
    simp
  · obtain ⟨k, rfl⟩ : ∃ k : Nat, e = -(k : Int) := ⟨(-e).toNat, by omega⟩
    have above : 0 < m * 5 ^ k := Nat.mul_pos positive (Nat.pow_pos (by decide))
    simp only [if_neg whole, neg_neg, Int.toNat_natCast, Nat.pow_eq]
    rw [ofDecimal_eq_nearest false _ above, ← nearest_exact false canonical positive]
    congr 1
    have halves : (5 : Rat) ^ k * 10 ^ (-(k : Int)) = 2 ^ (-(k : Int)) := by
      rw [zpow_neg, zpow_neg, zpow_natCast, zpow_natCast, show (10 : Rat) = 2 * 5 by norm_num,
        mul_pow]
      field_simp
    push_cast
    rw [mul_assoc, halves]

theorem shortest_reads {m : Nat} {e : Int} (canonical : Canonical m e) (positive : 0 < m) :
    (shortest m e).Reads m e := by
  unfold shortest
  cases found : (List.range 17).findSome? fun n => neighbour? m e (n + 1) with
  | none => exact exactDecimal_reads canonical positive
  | some d =>
    obtain ⟨n, _, taken⟩ := List.exists_of_findSome?_eq_some found
    exact neighbour?_reads taken

theorem ofDecimal_shortest {m : Nat} {e : Int} (negative : Bool) (canonical : Canonical m e)
    (positive : 0 < m) :
    0 < (shortest m e).coefficient ∧
      ofDecimal negative (shortest m e).coefficient (shortest m e).exponent =
        .finite negative m e canonical := by
  have reads := (Decimal.reads_iff canonical).mp (shortest_reads canonical positive)
  have above : 0 < (shortest m e).coefficient := by
    rcases Nat.eq_zero_or_pos (shortest m e).coefficient with none | above
    · rw [none] at reads
      simp only [ofDecimal, if_true, zero] at reads
      cases reads
      exact absurd positive (by decide)
    · exact above
  refine ⟨above, ?_⟩
  rw [ofDecimal_eq_nearest _ _ above] at reads ⊢
  exact nearest_sign reads negative

end Conform.Binary64
