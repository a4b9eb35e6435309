import Mathlib.Algebra.Order.Group.Unbundled.Int
import Mathlib.Tactic.LinearCombination

/-!
# Two clocks for one rate

Intervals of a rate of `f` a second are counted on two clocks: one of `H` ticks a second, read as
`H * n / f` after `n` intervals, and one of `U` units a second, on which every interval has the
rounded length `U / f`. The first rounds each reading, so it does not drift (`ticks_add_sub`). The
second rounds every interval, so they part by up to one tick and by `U % f` parts in `f` of a unit
an interval (`natAbs_sub_le`).
-/

namespace RateClock

/-- The reading after `n` intervals. -/
def ticks (H f n : ℕ) : ℕ := H * n / f

/-- The rounded length of an interval. -/
def interval (U f : ℕ) : ℕ := U / f

/-- An interval that is cut short loses less than a unit. -/
theorem mul_interval_add (U f : ℕ) : f * interval U f + U % f = U := Nat.div_add_mod U f

/-- The ticks with the remainder of the division. -/
theorem mul_ticks_add (H f n : ℕ) : f * ticks H f n + H * n % f = H * n := Nat.div_add_mod _ f

/-- What the rounding of `m` intervals has lost, with a tick, is no more than one interval. -/
def InBudget (H U f m : ℕ) : Prop := H * (m * (U % f)) + (f - 1) * U ≤ H * (U + U % f)

instance (H U f m : ℕ) : Decidable (InBudget H U f m) := inferInstanceAs (Decidable (_ ≤ _))

/-- **Within the budget** two events that are `m` intervals apart, up to one interval, are as far
apart on the first clock, up to two intervals. Both sides are in parts of `f * H * U` a second. -/
theorem natAbs_sub_le {H U f m : ℕ} (hf : 0 < f) (hbudget : InBudget H U f m) {e : ℤ}
    (he : e.natAbs ≤ interval U f) :
    ((f : ℤ) * (((ticks H f (m + 1) : ℤ) - ticks H f 1) * U - (m * interval U f + e) * H)).natAbs ≤
      2 * (H * U) := by
  have hm : (f : ℤ) * ticks H f (m + 1) + (H * (m + 1) % f : ℕ) = H * (m + 1) := by
    exact_mod_cast mul_ticks_add H f (m + 1)
  have h1 : (f : ℤ) * ticks H f 1 + (H * 1 % f : ℕ) = H * 1 := by
    exact_mod_cast mul_ticks_add H f 1
  have hT : (f : ℤ) * interval U f + (U % f : ℕ) = U := by exact_mod_cast mul_interval_add U f
  have hrm : H * (m + 1) % f < f := Nat.mod_lt _ hf
  have hr1 : H * 1 % f < f := Nat.mod_lt _ hf
  generalize H * (m + 1) % f = rm at hm hrm
  generalize H * 1 % f = r1 at h1 hr1
  -- what is left is the rounding of the intervals, of the two readings, and the lateness
  have hsplit : (f : ℤ) *
      (((ticks H f (m + 1) : ℤ) - ticks H f 1) * U - (m * interval U f + e) * H) =
      H * (m * (U % f : ℕ)) - U * ((rm : ℤ) - r1) - H * (f * e) := by
    linear_combination (U : ℤ) * hm - U * h1 - H * m * hT
  have hreadings : ((U : ℤ) * ((rm : ℤ) - r1)).natAbs ≤ U * (f - 1) := by
    rw [Int.natAbs_mul, Int.natAbs_natCast]
    exact Nat.mul_le_mul_left U (by omega)
  have hlate : ((H : ℤ) * (f * e)).natAbs ≤ H * (U - U % f) := by
    rw [Int.natAbs_mul, Int.natAbs_mul, Int.natAbs_natCast, Int.natAbs_natCast]
    refine Nat.mul_le_mul_left H (Nat.le_trans (Nat.mul_le_mul_left f he) ?_)
    have := mul_interval_add U f
    omega
  have hrounding : ((H : ℤ) * (m * (U % f : ℕ))).natAbs = H * (m * (U % f)) := by
    rw [← Nat.cast_mul, ← Nat.cast_mul, Int.natAbs_natCast]
  have hrest : H * (U + U % f) + H * (U - U % f) = 2 * (H * U) := by
    have := Nat.mod_le U f
    rw [← Nat.mul_add, show U + U % f + (U - U % f) = 2 * U by omega, Nat.mul_left_comm]
  rw [hsplit]
  unfold InBudget at hbudget
  rw [Nat.mul_comm (f - 1) U] at hbudget
  omega

/-- Two readings are as far apart as the intervals between them, rounded down or rounded up: what
the readings round does not add up. -/
theorem ticks_add_sub (H f m k : ℕ) :
    ticks H f (m + k) - ticks H f m = H * k / f ∨
      ticks H f (m + k) - ticks H f m = (H * k + (f - 1)) / f := by
  rcases Nat.eq_zero_or_pos f with rfl | hf
  · simp [ticks]
  · have hm := mul_ticks_add H f m
    have hk := Nat.div_add_mod (H * k) f
    have hrm : H * m % f < f := Nat.mod_lt _ hf
    have hrk : H * k % f < f := Nat.mod_lt _ hf
    generalize H * m % f = rm at hm hrm
    generalize H * k % f = rk at hk hrk
    generalize H * k / f = q at hk ⊢
    have hsum : H * (m + k) = f * (ticks H f m + q) + (rm + rk) := by
      rw [Nat.mul_add, Nat.mul_add, ← hm, ← hk]
      omega
    have hread : ticks H f (m + k) = ticks H f m + q + (rm + rk) / f := by
      rw [ticks, hsum, Nat.mul_add_div hf]
    rw [hread, ← hk, Nat.add_assoc (f * q), Nat.mul_add_div hf]
    -- the two roundings carry over into one more tick, or they do not
    by_cases hcarry : rm + rk < f
    · rw [Nat.div_eq_of_lt hcarry]
      omega
    · have hone : (rm + rk) / f = 1 := Nat.div_eq_of_lt_le (by omega) (by omega)
      have hceil : (rk + (f - 1)) / f = 1 := Nat.div_eq_of_lt_le (by omega) (by omega)
      rw [hone, hceil]
      omega

end RateClock
