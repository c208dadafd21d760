import Mathlib.Algebra.Order.Floor.Semifield
import Mathlib.Algebra.Order.Field.Basic
import Mathlib.Tactic.Positivity
import Mathlib.Tactic.GCongr

/-! Exponential back-off in exact arithmetic. The delay before a retry grows by a
fixed factor with each retry made, at most `cap` times, and never exceeds a limit.
It is rounded down to a whole number. -/

namespace PeerApi.Base

variable {K : Type*} [Field K] [LinearOrder K] [IsStrictOrderedRing K] [FloorSemiring K]

def backoff (factor : K) (cap delay limit made : ℕ) : ℕ :=
  ⌊min ((delay : K) * factor ^ min made cap) limit⌋₊

theorem backoff_mono {factor : K} (h : 1 ≤ factor) (cap delay limit : ℕ) :
    Monotone (backoff factor cap delay limit) := by
  intro j k hjk
  apply Nat.floor_mono
  have hp : factor ^ min j cap ≤ factor ^ min k cap :=
    pow_le_pow_right₀ h (min_le_min_right cap hjk)
  gcongr

theorem le_backoff {factor : K} (h : 1 ≤ factor) (cap : ℕ) {delay limit : ℕ}
    (hd : delay ≤ limit) (made : ℕ) : delay ≤ backoff factor cap delay limit made := by
  apply Nat.le_floor
  refine le_min ?_ (by exact_mod_cast hd)
  exact le_mul_of_one_le_right (Nat.cast_nonneg delay) (one_le_pow₀ h)

theorem backoff_le (factor : K) (cap delay limit made : ℕ) :
    backoff factor cap delay limit made ≤ limit :=
  Nat.floor_le_of_le (min_le_right _ _)

/-- With a rational factor the delay is a quotient of whole numbers. -/
theorem backoff_div (a b cap delay limit made : ℕ) :
    backoff ((a : K) / b) cap delay limit made =
      min (delay * a ^ min made cap / b ^ min made cap) limit := by
  have hq : (delay : K) * ((a : K) / b) ^ min made cap =
      ((delay * a ^ min made cap : ℕ) : K) / (b ^ min made cap : ℕ) := by
    push_cast
    rw [div_pow, mul_div_assoc]
  rw [backoff, hq, Nat.floor_mono.map_min, Nat.floor_div_eq_div, Nat.floor_natCast]

end PeerApi.Base
