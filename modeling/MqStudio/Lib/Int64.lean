import Mathlib.Algebra.Order.Ring.Int

/-!
# 64-bit Integers

Integers as a signed 64-bit word holds them: what does not fit wraps around.

## Main results

- `int64_eq_self_iff`: a word holds exactly the integers of its range.
- `int64_add`: wrapping early makes no difference to a sum.
-/

namespace MqStudio.Lib

/-- What a signed 64-bit word holds of an integer. -/
def int64 (n : Int) : Int := n.bmod (2 ^ 64)

variable {m n : Int}

theorem int64_lower : -2 ^ 63 ≤ int64 n := by
  have h := Int.le_bmod (x := n) (m := 2 ^ 64) (by decide)
  rw [int64]
  omega

theorem int64_upper : int64 n < 2 ^ 63 := by
  have h := Int.bmod_lt (x := n) (m := 2 ^ 64) (by decide)
  rw [int64]
  omega

/-- **A word holds what is in its range.** -/
theorem int64_of_range (hlower : -2 ^ 63 ≤ n) (hupper : n < 2 ^ 63) : int64 n = n := by
  rw [int64, Int.bmod_eq_of_le] <;> omega

theorem int64_eq_self_iff : int64 n = n ↔ -2 ^ 63 ≤ n ∧ n < 2 ^ 63 := by
  constructor
  · intro h
    rw [← h]
    exact ⟨int64_lower, int64_upper⟩
  · exact fun h => int64_of_range h.1 h.2

/-- **Wrapping a summand early** makes no difference. -/
theorem int64_add : int64 (int64 m + n) = int64 (m + n) := Int.bmod_add_bmod

/-- What wraps around from above comes out smaller. -/
theorem int64_le (h : 0 ≤ n) : int64 n ≤ n := by
  by_cases hupper : n < 2 ^ 63
  · rw [int64_of_range (by omega) hupper]
  · have hless := int64_upper (n := n)
    omega

/-- Just above its range a word starts over at the bottom. -/
theorem int64_over (hlower : 2 ^ 63 ≤ n) (hupper : n < 2 ^ 64 + 2 ^ 63) : int64 n = n - 2 ^ 64 := by
  rw [int64, Int.bmod_def]
  omega

/-- Just below it, at the top. -/
theorem int64_under (hlower : -2 ^ 64 - 2 ^ 63 ≤ n) (hupper : n < -2 ^ 63) :
    int64 n = n + 2 ^ 64 := by
  rw [int64, Int.bmod_def]
  omega

end MqStudio.Lib
