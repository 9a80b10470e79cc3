import Mathlib.Algebra.Order.Ring.Int
/-!
# Time slots

Time from `first` on is cut into slots of one length: slot `k` starts at
`time k`, and a time lies in `slotOf` it. Times and slot numbers are integers.
-/
namespace Lib

structure Slots where
  first : ℤ
  interval : ℤ
  interval_pos : 0 < interval

namespace Slots

variable (s : Slots)

/-- When slot `k` starts. -/
def time (k : ℤ) : ℤ := s.first + s.interval * k

/-- The slot of a time. -/
def slotOf (t : ℤ) : ℤ := (t - s.first) / s.interval

theorem slotOf_time (k : ℤ) : s.slotOf (s.time k) = k := by
  unfold Slots.slotOf time
  rw [add_sub_cancel_left]
  exact Int.mul_ediv_cancel_left k s.interval_pos.ne'

variable {s}

theorem slotOf_nonneg {t : ℤ} (h : s.first ≤ t) : 0 ≤ s.slotOf t :=
  Int.ediv_nonneg (by omega) s.interval_pos.le

theorem le_slotOf {k t : ℤ} (h : s.time k ≤ t) : k ≤ s.slotOf t := by
  refine (Int.le_ediv_iff_mul_le s.interval_pos).2 ?_
  unfold time at h
  rw [mul_comm]
  omega

/-- A time lies in its slot. -/
theorem time_slotOf_le (t : ℤ) : s.time (s.slotOf t) ≤ t := by
  have := Int.mul_ediv_self_le (x := t - s.first) s.interval_pos.ne'
  unfold time slotOf
  omega

theorem lt_time_slotOf (t : ℤ) : t < s.time (s.slotOf t + 1) := by
  have := Int.lt_mul_ediv_self_add (x := t - s.first) s.interval_pos
  unfold time slotOf
  rw [mul_add, mul_one]
  omega

theorem first_le_time {k : ℤ} (h : 0 ≤ k) : s.first ≤ s.time k := by
  have := mul_nonneg s.interval_pos.le h
  unfold time
  omega

end Slots

end Lib
